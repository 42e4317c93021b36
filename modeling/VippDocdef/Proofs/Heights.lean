import VippDocdef.Proofs.FontUse
import VippDocdef.Proofs.Sizes

/-! Heights of fonts and their corrections. A font section declares each alias with the height of
its last definition, of the sources or of the fonts that every program has; corrections look an
alias up in all of them. Both find the same definition, so the height that is declared is the one
that is corrected. -/

set_option autoImplicit false

namespace VippDocdef.Docdef

/-- The definition that gives a declared alias its height. -/
inductive Supplies (p : Project) : String → FontDef → Prop
  /-- No later definition of the sources has the alias, in any letter case. -/
  | defined {before after : List FontDef} {f : FontDef} (hfonts : p.fonts = before ++ f :: after)
      (hlast : ∀ g ∈ after, g.aliasName.toUpper ≠ f.aliasName.toUpper) :
      Supplies p f.aliasName.toUpper f
  /-- The sources do not define the alias. -/
  | builtIn {f : FontDef} (hf : f ∈ defaultFonts)
      (hfree : ∀ g ∈ p.fonts, g.aliasName.toUpper ≠ f.aliasName) : Supplies p f.aliasName f

theorem pos_of_mem_defaultFonts : ∀ f ∈ defaultFonts, 0 < f.size := by decide +kernel

section Supply

variable {p : Project} {a : String} {f : FontDef}

/-- Among all definitions, those that every program has in front, it is the last of its alias. -/
theorem Supplies.last (h : Supplies p a f) : f.aliasName.toUpper = a ∧
    ∃ before after, defaultFonts ++ p.fonts = before ++ f :: after ∧ ∀ g ∈ after,
    g.aliasName.toUpper ≠ a := by
  cases h with
  | @defined before after _ hfonts hlast =>
    exact ⟨rfl, defaultFonts ++ before, after, by rw [hfonts, List.append_assoc], hlast⟩
  | builtIn hf hfree =>
    obtain ⟨before, after, hsplit⟩ := List.append_of_mem hf
    refine ⟨toUpper_of_mem_defaultFonts f hf, before, after ++ p.fonts, by simp [hsplit],
      List.forall_mem_append.2 ⟨fun g hg => ?_, hfree⟩⟩
    have hnodup := nodup_defaultFonts
    rw [hsplit, List.map_append, List.map_cons] at hnodup
    have hother : f.aliasName ∉ after.map (·.aliasName) :=
      (List.nodup_cons.1 (List.nodup_append.1 hnodup).2.1).1
    rw [toUpper_of_mem_defaultFonts g (hsplit ▸ List.mem_append_right _
      (List.mem_cons_of_mem _ hg))]
    exact fun heq => hother (heq ▸ List.mem_map_of_mem hg)

theorem Supplies.fontSize? (h : Supplies p a f) (settings : Settings) (renames : Option RenameTable)
    {name : String} (hname : name.toUpper = a) :
    ({ settings, project := p, renames } : Env).fontSize? name = some f.size := by
  obtain ⟨halias, before, after, hsplit, hafter⟩ := h.last
  have hfind :
      (defaultFonts ++ p.fonts).reverse.find? (·.aliasName.toUpper = name.toUpper) = some f := by
    refine List.find?_eq_some_iff_append.2
      ⟨by simp [halias, hname], after.reverse, before.reverse, ?_, ?_⟩
    · simp [hsplit]
    · simpa [hname] using hafter
  exact congrArg (Option.map (·.size)) hfind

theorem Supplies.exists_sectionFont (hfonts : ∀ f ∈ p.fonts, FontDef.Declared f.aliasName f)
    (h : Supplies p a f) : ∃ d ∈ sectionFonts p, d.aliasName = a
      ∧ d.size = if 0 < f.size then f.size else fallbackFontSize := by
  cases h with
  | @defined before after _ hsplit hlast =>
    have hmem : f ∈ p.fonts := hsplit ▸ List.mem_append_right before List.mem_cons_self
    exact ⟨declaredFont f, List.mem_append_left _ ((mem_values_declaredFonts hfonts).2
      ⟨before, f, after, hsplit, hlast, rfl⟩), aliasName_declaredFont (hfonts f hmem), rfl⟩
  | builtIn hf hfree =>
    have hcontains : (declaredFonts p).contains f.aliasName = false := by
      rw [← Bool.not_eq_true, contains_declaredFonts, mem_keys_declaredFonts]
      rintro ⟨g, hg, halias⟩
      exact hfree g hg ((aliasName_declaredFont (hfonts g hg)).symm.trans halias)
    refine ⟨f, List.mem_append_right _ (List.mem_filter.2 ⟨hf, by rw [hcontains]; rfl⟩), rfl, ?_⟩
    rw [if_pos (pos_of_mem_defaultFonts f hf)]

theorem exists_supplies (hfonts : ∀ f ∈ p.fonts, FontDef.Declared f.aliasName f) {d : FontDef}
    (hd : d ∈ sectionFonts p) : ∃ f, Supplies p d.aliasName f := by
  rcases List.mem_append.1 hd with hvalue | hdefault
  · obtain ⟨before, f, after, hsplit, hlast, rfl⟩ := (mem_values_declaredFonts hfonts).1 hvalue
    rw [aliasName_declaredFont
      (hfonts f (hsplit ▸ List.mem_append_right before List.mem_cons_self))]
    exact ⟨f, .defined hsplit hlast⟩
  · obtain ⟨hmem, hnot⟩ := List.mem_filter.1 hdefault
    refine ⟨d, .builtIn hmem fun g hg halias => ?_⟩
    have hkey : (declaredFonts p).contains d.aliasName = true :=
      contains_declaredFonts.2 (mem_keys_declaredFonts.2
        ⟨g, hg, (aliasName_declaredFont (hfonts g hg)).trans halias⟩)
    simp [hkey] at hnot

end Supply

/-- A declared font has the height of a definition, and the height decides how its place is
corrected. -/
structure Corrected (e : Env) (d f : FontDef) : Prop where
  height : d.size = if 0 < f.size then f.size else fallbackFontSize
  correction : 0 < f.size → ∀ name : String, name.toUpper = d.aliasName →
    e.correction? name = (e.settings.calibration.band? f.size).map (·.variable)
  absent : 0 < f.size → ∀ name : String, name.toUpper = d.aliasName →
    (e.correction? name = none ↔ ∀ b ∈ e.settings.calibration.fontBands, b.admits f.size = false)

theorem Supplies.corrected {p : Project} (hfonts : ∀ f ∈ p.fonts, FontDef.Declared f.aliasName f)
    {d f : FontDef} (hd : d ∈ sectionFonts p) (h : Supplies p d.aliasName f) (settings : Settings)
    (renames : Option RenameTable) : Corrected { settings, project := p, renames } d f := by
  have hcorrection (hpos : 0 < f.size) (name : String) (hname : name.toUpper = d.aliasName) :
      ({ settings, project := p, renames } : Env).correction? name
        = (settings.calibration.band? f.size).map (·.variable) := by
    rw [Env.correction?, h.fontSize? settings renames hname]
    exact if_neg (Size.not_le_of_lt hpos)
  refine ⟨?_, hcorrection, fun hpos name hname => ?_⟩
  · obtain ⟨d', hd', halias, hsize⟩ := h.exists_sectionFont hfonts
    rwa [← List.inj_on_of_nodup_map (nodup_sectionAliases p) hd' hd halias]
  · rw [hcorrection hpos name hname, Option.map_eq_none_iff, Calibration.band?, List.find?_eq_none]
    simp

/-- Every declared alias has its height from one definition, the last one of that alias, and if the
height is positive, the place of the font is corrected by the band that admits this height. -/
theorem corrections_follow_heights (settings : Settings) (renames : Option RenameTable)
    (document : String × String) (forms : List (String × String)) {p : Project}
    (hp : p = Project.ofSources document forms ∨ p = (Project.ofSources document forms).resolve.1) :
    fontSection p = flush ("/* Font Definitions */" :: (sectionFonts p).map fontLine ++ [""]) ∧
      ∀ d ∈ sectionFonts p, (∃ f, Supplies p d.aliasName f) ∧
        ∀ f, Supplies p d.aliasName f → Corrected { settings, project := p, renames } d f := by
  have hsources := Project.declared_ofSources document forms
  have hfonts : ∀ f ∈ p.fonts, FontDef.Declared f.aliasName f := by
    rcases hp with rfl | rfl
    · exact Project.declared_fonts hsources
    · exact Project.declared_fonts (declared_resolve hsources)
  exact ⟨fontSection_eq p, fun d hd =>
    ⟨exists_supplies hfonts hd, fun f hf => hf.corrected hfonts hd settings renames⟩⟩

/-- A definition of a form, in another letter case, comes after that of the document. -/
theorem corrections_follow_heights_of_form :
    let p := (Project.ofSources ("t.dbm", "/F1 /ARIAL 6 INDEXFONT")
      [("a.frm", "/f1 /COURIER 12 INDEXFONT")]).resolve.1
    ∃ d ∈ sectionFonts p, d.aliasName = "F1" ∧ d.size = 12 ∧
      ({ project := p } : Env).correction? "F1" = some "&CORFONT12" := by
  intro p
  have hentries : p.fonts.map (fun f => (f.aliasName, f.size)) = [("F1", 6), ("f1", 12)] := by
    decide +kernel
  obtain ⟨f, rest, hfonts, -, hrest⟩ := List.map_eq_cons_iff.1 hentries
  obtain ⟨g, after, rfl, hg, hafter⟩ := List.map_eq_cons_iff.1 hrest
  obtain rfl := List.map_eq_nil_iff.1 hafter
  obtain ⟨hname, hsize⟩ := Prod.mk.inj hg
  have hcapitals : g.aliasName.toUpper = "F1" := by
    rw [hname]
    decide +kernel
  have hsplit : p.fonts = [f] ++ g :: [] := hfonts
  have hsupplies : Supplies p g.aliasName.toUpper g := .defined hsplit (List.forall_mem_nil _)
  rw [hcapitals] at hsupplies
  have hdeclared : "F1" ∈ sectionAliases p := by
    refine mem_sectionAliases.2 (.inl ⟨g, by simp [hfonts], ?_⟩)
    change (Text.dropLeading '/' g.aliasName).toUpper = "F1"
    rw [hname]
    decide +kernel
  obtain ⟨d, hd, halias⟩ := List.mem_map.1 hdeclared
  have hagree := ((corrections_follow_heights {} none ("t.dbm", "/F1 /ARIAL 6 INDEXFONT")
    [("a.frm", "/f1 /COURIER 12 INDEXFONT")] (.inr rfl)).2 d hd).2 g (halias ▸ hsupplies)
  have hpos : 0 < g.size := by
    rw [hsize]
    decide +kernel
  refine ⟨d, hd, halias, ?_, ?_⟩
  · rw [hagree.height, if_pos hpos, hsize]
  · rw [hagree.correction hpos "F1" (by rw [halias]; decide +kernel), hsize]
    decide +kernel

end VippDocdef.Docdef
