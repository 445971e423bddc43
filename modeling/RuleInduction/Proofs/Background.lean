import RuleInduction.Proofs.ConstantPool
import RuleInduction.Proofs.Matching.Narrowing
import RuleInduction.Proofs.Mode.Signatures
import RuleInduction.Proofs.Store

namespace RuleInduction

def Mode.declares (modes : List Mode) (p : Predicate) : Bool :=
  modes.any fun m => m.predicate = p

theorem Mode.declares_iff {modes : List Mode} {p : Predicate} :
    declares modes p = true ↔ ∃ m ∈ modes, m.predicate = p := by
  simp [declares]

def declaredTuples (modes : List Mode) (facts : List Fact) : List (Predicate × List String) :=
  (facts.filter fun f => Mode.declares modes f.predicate).map fun f => (f.predicate, f.arguments)

/-- The backgrounds hold the same facts of declared predicates, each as often, in any order and with
any weights. Of other predicates they may hold any facts. -/
def SameTuples (modes : List Mode) (background background' : List Fact) : Prop :=
  (declaredTuples modes background).Perm (declaredTuples modes background')

instance (modes : List Mode) (background background' : List Fact) :
    Decidable (SameTuples modes background background') :=
  inferInstanceAs (Decidable (List.Perm _ _))

variable {modes : List Mode} {background background' : List Fact} {p : Predicate}

theorem SameTuples.symm (h : SameTuples modes background background') :
    SameTuples modes background' background :=
  List.Perm.symm h

theorem arguments_of_declared (hp : Mode.declares modes p = true) (facts : List Fact) :
    ((declaredTuples modes facts).filter fun e => e.1 = p).map Prod.snd =
      (facts.filter fun f => f.predicate = p).map Fact.arguments := by
  rw [declaredTuples, List.filter_map, List.map_map, List.filter_filter]
  refine congrArg _ (List.filter_congr fun f _ => ?_)
  by_cases hf : f.predicate = p
  · simp [hf, hp]
  · simp [hf]

theorem SameTuples.arguments (h : SameTuples modes background background')
    (hp : Mode.declares modes p = true) :
    ((background.filter fun f => f.predicate = p).map Fact.arguments).Perm
      ((background'.filter fun f => f.predicate = p).map Fact.arguments) := by
  rw [← arguments_of_declared hp, ← arguments_of_declared hp]
  exact (List.Perm.filter _ h).map _

theorem SameTuples.exists_fact (h : SameTuples modes background background')
    (hp : Mode.declares modes p = true) {f : Fact} (hf : f ∈ background) (hfp : f.predicate = p) :
    ∃ f' ∈ background', f'.predicate = p ∧ f'.arguments = f.arguments := by
  have hmem : f.arguments ∈ (background.filter fun f => f.predicate = p).map Fact.arguments :=
    List.mem_map_of_mem (List.mem_filter.2 ⟨hf, decide_eq_true hfp⟩)
  obtain ⟨f', hf', heq⟩ := List.mem_map.1 ((h.arguments hp).mem_iff.1 hmem)
  obtain ⟨hf', hp'⟩ := List.mem_filter.1 hf'
  exact ⟨f', hf', of_decide_eq_true hp', heq⟩

theorem SameTuples.seen (h : SameTuples modes background background') {type v : String}
    (hv : ConstantPool.Seen modes background type v) :
    ConstantPool.Seen modes background' type v := by
  obtain ⟨m, hm, i, hslot, f, hf, hfp, hw⟩ := hv
  obtain ⟨f', hf', hfp', heq⟩ := h.exists_fact (Mode.declares_iff.2 ⟨m, hm, rfl⟩) hf hfp
  exact ⟨m, hm, i, hslot, f', hf', hfp', heq ▸ hw⟩

theorem SameTuples.derive (h : SameTuples modes background background') :
    ConstantPool.derive modes background = ConstantPool.derive modes background' :=
  ConstantPool.derive_eq_of_seen fun _ _ => ⟨h.seen, h.symm.seen⟩

def Store.Alike (modes : List Mode) (s s' : Store) : Prop :=
  ∀ p, Mode.declares modes p = true →
    Option.Rel (fun rows rows' => (tuples rows).Perm (tuples rows')) (s.relation? p)
      (s'.relation? p)

def View.Alike (modes : List Mode) (v v' : View) : Prop :=
  ∀ p, Mode.declares modes p = true → (tuples (v.rows p)).Perm (tuples (v'.rows p))

namespace Store.Alike

variable {s s' : Store}

theorem tuples_rows (h : s.Alike modes s') (hp : Mode.declares modes p = true) :
    (tuples (s.rows p)).Perm (tuples (s'.rows p)) := by
  have hrel := h p hp
  simp only [Store.rows]
  generalize s.relation? p = rows?, s'.relation? p = rows'? at hrel ⊢
  cases hrel with
  | none => exact .refl _
  | some hperm => exact hperm

theorem view (h : s.Alike modes s') : s.view.Alike modes s'.view := by
  intro p hp
  rw [View.rows_view, View.rows_view]
  exact h.tuples_rows hp

theorem merge (h : s.Alike modes s') (t : Store) : (s.merge t).Alike modes (s'.merge t) := by
  intro p hp
  rw [relation?_merge, relation?_merge]
  cases t.relation? p with
  | none => exact h p hp
  | some rows =>
      refine .some ?_
      rw [tuples_append, tuples_append]
      exact (h.tuples_rows hp).append_right _

end Store.Alike

theorem SameTuples.compile (h : SameTuples modes background background') :
    (Store.compile background).Alike modes (Store.compile background') := by
  intro p hp
  have hlisted : (∃ f ∈ background, f.predicate = p) ↔ ∃ f ∈ background', f.predicate = p := by
    constructor
    · rintro ⟨f, hf, hfp⟩
      obtain ⟨f', hf', hfp', _⟩ := h.exists_fact hp hf hfp
      exact ⟨f', hf', hfp'⟩
    · rintro ⟨f, hf, hfp⟩
      obtain ⟨f', hf', hfp', _⟩ := h.symm.exists_fact hp hf hfp
      exact ⟨f', hf', hfp'⟩
  rw [Store.relation?_compile, Store.relation?_compile]
  by_cases hsome : ∃ f ∈ background, f.predicate = p
  · rw [if_pos hsome, if_pos (hlisted.1 hsome)]
    refine .some ?_
    rw [tuples_map_row, tuples_map_row]
    exact h.arguments hp
  · rw [if_neg hsome, if_neg (mt hlisted.2 hsome)]
    exact .none

section Matching

variable {v v' : View} {b : Bindings} {c : Clause}

def Clause.Declared (modes : List Mode) (c : Clause) : Prop :=
  ∀ l ∈ c, Mode.declares modes l.predicate = true

theorem View.Alike.binaryStrengths (h : v.Alike modes v') (hc : c.Declared modes) :
    binaryStrengths v b c = binaryStrengths v' b c :=
  binaryStrengths_congr (fun l hl => (h l.predicate (hc l hl)).subset)
    (fun l hl => (h l.predicate (hc l hl)).symm.subset) (.refl b) (.refl b)

end Matching

end RuleInduction
