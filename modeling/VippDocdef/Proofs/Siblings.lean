import VippDocdef.Docdef.Flow

/-! How a flat `IF` divides its siblings. The reader goes over every stretch that holds no marker of
the branch itself; a stretch that holds one is divided in the same way whatever stands behind it. -/

set_option autoImplicit false

namespace VippDocdef.Docdef

def FlatIf.prepend (cs : List Command) (f : FlatIf) : FlatIf := { f with yes := cs ++ f.yes }

@[simp] theorem FlatIf.prepend_nil (f : FlatIf) : f.prepend [] = f := rfl

@[simp] theorem FlatIf.cons_prepend (c : Command) (cs : List Command) (f : FlatIf) :
    (f.prepend cs).cons c = f.prepend (c :: cs) := rfl

/-- How many inner branches are open behind some siblings of a flat `IF`, if neither its own `ELSE`
nor its own `ENDIF` is among them. -/
def innerAfter? : (depth : Nat) → List Command → Option Nat
  | depth, [] => some depth
  | depth, .ifFlat _ _ :: rest => innerAfter? (depth + 1) rest
  | 0, .endIf _ :: _ => none
  | depth + 1, .endIf _ :: rest => innerAfter? depth rest
  | 0, .elseFlat _ :: _ => none
  | 0, .elseBlock _ _ :: _ => none
  | depth, _ :: rest => innerAfter? depth rest

theorem innerAfter?_append {depth inner : Nat} {front : List Command}
    (h : innerAfter? depth front = some inner) (back : List Command) :
    innerAfter? depth (front ++ back) = innerAfter? inner back := by
  fun_induction innerAfter? depth front with
  | case1 depth => rw [Option.some.inj h, List.nil_append]
  | case2 depth p c rest ih => exact ih h
  | case3 p rest => cases h
  | case4 depth p rest ih => exact ih h
  | case5 p rest => cases h
  | case6 p body rest => cases h
  | case7 depth c rest h₁ h₂ h₃ h₄ h₅ ih =>
    rw [List.cons_append, innerAfter?, ih h] <;> assumption

theorem innerAfter?_succ {depth inner : Nat} {cs : List Command}
    (h : innerAfter? depth cs = some inner) : innerAfter? (depth + 1) cs = some (inner + 1) := by
  fun_induction innerAfter? depth cs with
  | case1 depth => rw [Option.some.inj h]; rfl
  | case2 depth p c rest ih => exact ih h
  | case3 p rest => cases h
  | case4 depth p rest ih => exact ih h
  | case5 p rest => cases h
  | case6 p body rest => cases h
  | case7 depth c rest hif hzero hsucc h₄ h₅ ih =>
    -- the equations for `ENDIF` are two, one for each form of the depth
    have hc : ∀ p, c ≠ .endIf p := by
      intro p
      cases depth with
      | zero => exact hzero p rfl
      | succ depth => exact hsucc depth p rfl
    rw [innerAfter?, ih h]
    · exact hif
    · exact fun _ => nofun
    · exact fun _ p _ => hc p
    · exact fun _ => nofun
    · exact fun _ _ => nofun

theorem innerAfter?_add {depth inner : Nat} {cs : List Command}
    (h : innerAfter? depth cs = some inner) (more : Nat) :
    innerAfter? (depth + more) cs = some (inner + more) := by
  induction more with
  | zero => exact h
  | succ more ih => exact innerAfter?_succ ih

theorem FlatIf.read_append {depth inner : Nat} {front : List Command}
    (h : innerAfter? depth front = some inner) (back : List Command) :
    FlatIf.read depth (front ++ back) = (FlatIf.read inner back).prepend front := by
  fun_induction innerAfter? depth front with
  | case1 depth => rw [Option.some.inj h, List.nil_append, FlatIf.prepend_nil]
  | case2 depth p c rest ih => simp [FlatIf.read, ih h]
  | case3 p rest => cases h
  | case4 depth p rest ih => simp [FlatIf.read, ih h]
  | case5 p rest => cases h
  | case6 p body rest => cases h
  | case7 depth c rest h₁ h₂ h₃ h₄ h₅ ih =>
    rw [List.cons_append, FlatIf.read, ih h, FlatIf.cons_prepend] <;> assumption

theorem untilEndIf_append {depth inner : Nat} {front : List Command}
    (h : innerAfter? depth front = some inner) (back : List Command) :
    untilEndIf depth (front ++ back)
      = (front ++ (untilEndIf inner back).1, (untilEndIf inner back).2) := by
  fun_induction innerAfter? depth front with
  | case1 depth => rw [Option.some.inj h]; rfl
  | case2 depth p c rest ih => simp [untilEndIf, ih h]
  | case3 p rest => cases h
  | case4 depth p rest ih => simp [untilEndIf, ih h]
  | case5 p rest => cases h
  | case6 p body rest => cases h
  | case7 depth c rest h₁ h₂ h₃ h₄ h₅ ih =>
    rw [List.cons_append, untilEndIf, ih h, List.cons_append] <;> assumption

theorem untilEndIf_isPrefix (depth : Nat) (cs : List Command) : (untilEndIf depth cs).1 <+: cs := by
  fun_induction untilEndIf depth cs with
  | case1 => exact List.prefix_rfl
  | case3 p rest => exact List.nil_prefix
  | case2 depth p c rest split ih => exact (List.prefix_cons_inj _).2 ih
  | case4 depth p rest split ih => exact (List.prefix_cons_inj _).2 ih
  | case5 depth c rest h₁ h₂ h₃ split ih => exact (List.prefix_cons_inj _).2 ih

theorem FlatIf.yes_isPrefix (depth : Nat) (cs : List Command) :
    (FlatIf.read depth cs).yes <+: cs := by
  fun_induction FlatIf.read depth cs with
  | case1 => exact List.prefix_rfl
  | case3 p rest => exact List.nil_prefix
  | case5 p rest split => exact List.nil_prefix
  | case6 p body rest split => exact List.nil_prefix
  | case2 depth p c rest ih => exact (List.prefix_cons_inj _).2 ih
  | case4 depth p rest ih => exact (List.prefix_cons_inj _).2 ih
  | case7 depth c rest h₁ h₂ h₃ h₄ h₅ ih => exact (List.prefix_cons_inj _).2 ih

/-- Where the `ENDIF` of a branch is found that stands behind its `ELSE`, seen from some first
siblings: among them, at a place that does not depend on the others, or among the others. -/
inductive Ending (depth : Nat) (front : List Command) : Prop where
  | inside (part post : List Command) (suffix : post <:+ front)
      (split : ∀ back, untilEndIf depth (front ++ back) = (part, post ++ back))
  | behind (inner : Nat)
      (split : ∀ back, untilEndIf depth (front ++ back)
        = (front ++ (untilEndIf inner back).1, (untilEndIf inner back).2))

theorem Ending.cons {depth inner : Nat} {c : Command} {front : List Command}
    (hc : ∀ rest, untilEndIf depth (c :: rest)
      = (c :: (untilEndIf inner rest).1, (untilEndIf inner rest).2))
    (h : Ending inner front) : Ending depth (c :: front) := by
  cases h with
  | inside part post suffix split =>
    exact .inside (c :: part) post (suffix.trans (List.suffix_cons c front))
      (fun back => by rw [List.cons_append, hc, split])
  | behind inner' split =>
    exact .behind inner' (fun back => by rw [List.cons_append, hc, split]; rfl)

theorem ending (depth : Nat) (front : List Command) : Ending depth front := by
  fun_induction untilEndIf depth front with
  | case1 depth => exact .behind depth (fun back => rfl)
  | case2 depth p c rest split ih => exact ih.cons (fun _ => by simp [untilEndIf])
  | case3 p rest => exact .inside [] rest (List.suffix_cons _ rest) (fun back => rfl)
  | case4 depth p rest split ih => exact ih.cons (fun _ => by simp [untilEndIf])
  | case5 depth c rest h₁ h₂ h₃ split ih =>
    exact ih.cons (fun _ => by rw [untilEndIf] <;> assumption)

/-- How far some first siblings take the reading of a flat `IF`: they end it, they reach into its
second branch, or they leave it in its first branch. -/
inductive Division (depth : Nat) (front : List Command) : Prop where
  | closed (yes : List Command) (no : Option (List Command × List Command)) (post : List Command)
      (suffix : post <:+ front)
      (read : ∀ back, FlatIf.read depth (front ++ back) = ⟨yes, no, post ++ back⟩)
  | second (yes body siblings : List Command) (inner : Nat) (suffix : siblings <:+ front)
      (read : ∀ back, FlatIf.read depth (front ++ back)
        = ⟨yes, some (body, siblings ++ (untilEndIf inner back).1), (untilEndIf inner back).2⟩)
  | first (inner : Nat) (after : innerAfter? depth front = some inner)

theorem Division.cons {depth inner : Nat} {c : Command} {front : List Command}
    (hc : ∀ rest, FlatIf.read depth (c :: rest) = (FlatIf.read inner rest).cons c)
    (ha : innerAfter? depth (c :: front) = innerAfter? inner front)
    (h : Division inner front) : Division depth (c :: front) := by
  cases h with
  | closed yes no post suffix read =>
    exact .closed (c :: yes) no post (suffix.trans (List.suffix_cons c front))
      (fun back => by rw [List.cons_append, hc, read]; rfl)
  | second yes body siblings inner' suffix read =>
    exact .second (c :: yes) body siblings inner' (suffix.trans (List.suffix_cons c front))
      (fun back => by rw [List.cons_append, hc, read]; rfl)
  | first inner' after => exact .first inner' (ha.trans after)

theorem Division.ofElse {c : Command} {body front : List Command}
    (hc : ∀ rest, FlatIf.read 0 (c :: rest)
      = ⟨[], some (body, (untilEndIf 0 rest).1), (untilEndIf 0 rest).2⟩) :
    Division 0 (c :: front) := by
  cases ending 0 front with
  | inside part post suffix split =>
    exact .closed [] (some (body, part)) post (suffix.trans (List.suffix_cons c front))
      (fun back => by rw [List.cons_append, hc, split])
  | behind inner split =>
    exact .second [] body front inner (List.suffix_cons c front)
      (fun back => by rw [List.cons_append, hc, split])

theorem division (depth : Nat) (front : List Command) : Division depth front := by
  fun_induction FlatIf.read depth front with
  | case1 depth => exact .first depth rfl
  | case2 depth p c rest ih => exact ih.cons (fun _ => rfl) (by simp [innerAfter?])
  | case3 p rest => exact .closed [] none rest (List.suffix_cons _ rest) (fun back => rfl)
  | case4 depth p rest ih => exact ih.cons (fun _ => rfl) (by simp [innerAfter?])
  | case5 p rest split => exact .ofElse (fun _ => rfl)
  | case6 p body rest split => exact .ofElse (fun _ => rfl)
  | case7 depth c rest h₁ h₂ h₃ h₄ h₅ ih =>
    refine ih.cons (fun _ => ?_) ?_
    · rw [FlatIf.read] <;> assumption
    · rw [innerAfter?] <;> assumption

theorem ofCommands_ifFlat (p : Position) (condition : List String) (rest : List Command) :
    Flow.ofCommands (.ifFlat p condition :: rest) =
      match (FlatIf.read 0 rest).no with
      | none =>
        .branch condition (.ofCommands (FlatIf.read 0 rest).yes)
          (.ofCommands (FlatIf.read 0 rest).after)
      | some no =>
        .branchElse condition (.ofCommands (FlatIf.read 0 rest).yes)
          (.scope (.ofCommands no.1) (.ofCommands no.2))
          (.ofCommands (FlatIf.read 0 rest).after) := by
  rw [Flow.ofCommands]
  split <;> simp_all

theorem ofCommands_ifFlat_endIf {yes : List Command} (h : innerAfter? 0 yes = some 0)
    (p q : Position) (condition : List String) (rest : List Command) :
    Flow.ofCommands (.ifFlat p condition :: (yes ++ .endIf q :: rest))
      = .branch condition (.ofCommands yes) (.ofCommands rest) := by
  rw [ofCommands_ifFlat, FlatIf.read_append h]
  simp [FlatIf.read, FlatIf.prepend]

theorem ofCommands_ifFlat_elseFlat {yes no : List Command} (hy : innerAfter? 0 yes = some 0)
    (hn : innerAfter? 0 no = some 0) (p q r : Position) (condition : List String)
    (rest : List Command) :
    Flow.ofCommands (.ifFlat p condition :: (yes ++ .elseFlat q :: (no ++ .endIf r :: rest)))
      = .branchElse condition (.ofCommands yes) (.scope .done (.ofCommands no))
          (.ofCommands rest) := by
  rw [ofCommands_ifFlat, FlatIf.read_append hy]
  simp [FlatIf.read, FlatIf.prepend, untilEndIf_append hn, untilEndIf, Flow.ofCommands]

theorem ofCommands_ifFlat_elseBlock {yes : List Command} (h : innerAfter? 0 yes = some 0)
    (p q : Position) (condition : List String) (no rest : List Command) :
    Flow.ofCommands (.ifFlat p condition :: (yes ++ .elseBlock q no :: rest))
      = .branchElse condition (.ofCommands yes)
          (.scope (.ofCommands no) (.ofCommands (untilEndIf 0 rest).1))
          (.ofCommands (untilEndIf 0 rest).2) := by
  rw [ofCommands_ifFlat, FlatIf.read_append h]
  simp [FlatIf.read, FlatIf.prepend]

theorem innerAfter?_ifFlat_elseBlock {yes : List Command} (h : innerAfter? 0 yes = some 0)
    (p q : Position) (condition : List String) (no : List Command) (depth : Nat) :
    innerAfter? depth (.ifFlat p condition :: (yes ++ [.elseBlock q no])) = some (depth + 1) := by
  have hyes : innerAfter? (depth + 1) yes = some (depth + 1) := by
    simpa using innerAfter?_add h (depth + 1)
  simp [innerAfter?, innerAfter?_append hyes]

theorem ofCommands_ifBlock {rest : List Command} (h : ∀ q no, rest.head? ≠ some (.elseBlock q no))
    (p : Position) (condition : List String) (yes : List Command) :
    Flow.ofCommands (.ifBlock p condition yes :: rest)
      = .branch condition (.ofCommands yes) (.ofCommands rest) := by
  rw [Flow.ofCommands]
  rintro q no rest' rfl
  exact h q no rfl

end VippDocdef.Docdef
