import Mathlib.Data.List.Forall2
import RuleInduction.Candidate
import RuleInduction.Proofs.FreshNames

namespace RuleInduction

def Surroundings.Binds (s : Surroundings) (type x : String) : Prop :=
  (type, x) ∈ s.head.entries ∨ (type, x) ∈ s.body.entries

namespace Slot

variable {s : Surroundings} {fresh : String} {slot : Slot} {t : Term}

inductive Admits (s : Surroundings) (fresh : String) : Slot → Term → Prop
  | constant {type v : String} (h : v ∈ s.constants.values type) :
      Admits s fresh ⟨.constant, type⟩ (.ofValue v)
  | input {type x : String} (h : s.Binds type x) : Admits s fresh ⟨.input, type⟩ (.var x)
  | fresh {slot : Slot} (h : slot.takesName = true) : Admits s fresh slot (.var fresh)
  | output {type x : String} (h : s.Binds type x) : Admits s fresh ⟨.output, type⟩ (.var x)
  | bodyOutput {type x : String} (h : (type, x) ∈ s.body.entries) (hx : s.head.contains x = false) :
      Admits s fresh ⟨.bodyOutput, type⟩ (.var x)

theorem mem_bound {type : String} : t ∈ (s.head.vars type).map Term.var ++
    (s.body.vars type).map Term.var ↔ ∃ x, s.Binds type x ∧ t = .var x := by
  simp only [List.mem_append, List.mem_map, Scope.mem_vars, Surroundings.Binds]
  constructor
  · rintro (⟨x, hx, rfl⟩ | ⟨x, hx, rfl⟩)
    · exact ⟨x, Or.inl hx, rfl⟩
    · exact ⟨x, Or.inr hx, rfl⟩
  · rintro ⟨x, hx | hx, rfl⟩
    · exact Or.inl ⟨x, hx, rfl⟩
    · exact Or.inr ⟨x, hx, rfl⟩

theorem mem_boundInBody {type : String} : t ∈ ((s.body.vars type).map Term.var).filter
    (fun t => !s.head.contains t.name) ↔
      ∃ x, (type, x) ∈ s.body.entries ∧ s.head.contains x = false ∧ t = .var x := by
  simp only [List.mem_filter, List.mem_map, Scope.mem_vars, Bool.not_eq_true']
  constructor
  · rintro ⟨⟨x, hx, rfl⟩, hhead⟩
    exact ⟨x, hx, hhead, rfl⟩
  · rintro ⟨x, hx, hhead, rfl⟩
    exact ⟨⟨x, hx, rfl⟩, hhead⟩

theorem mem_terms : t ∈ slot.terms s fresh ↔ slot.Admits s fresh t := by
  obtain ⟨symbol, type⟩ := slot
  constructor
  · intro h
    cases symbol with
    | input =>
        obtain ⟨x, hx, rfl⟩ := mem_bound.1 h
        exact .input hx
    | output =>
        simp only [terms, List.cons_append] at h
        rcases List.mem_cons.1 h with rfl | h
        · exact .fresh rfl
        · obtain ⟨x, hx, rfl⟩ := mem_bound.1 h
          exact .output hx
    | bodyOutput =>
        rcases List.mem_cons.1 h with rfl | h
        · exact .fresh rfl
        · obtain ⟨x, hx, hhead, rfl⟩ := mem_boundInBody.1 h
          exact .bodyOutput hx hhead
    | constant =>
        obtain ⟨v, hv, rfl⟩ := List.mem_map.1 h
        exact .constant hv
  · intro h
    cases h with
    | constant hv => exact List.mem_map_of_mem hv
    | input hx => exact mem_bound.2 ⟨_, hx, rfl⟩
    | fresh h =>
        cases symbol with
        | input => cases h
        | output => exact List.mem_cons_self
        | bodyOutput => exact List.mem_cons_self
        | constant => cases h
    | output hx => exact List.mem_cons_of_mem _ (mem_bound.2 ⟨_, hx, rfl⟩)
    | bodyOutput hx hhead =>
        exact List.mem_cons_of_mem _ (mem_boundInBody.2 ⟨_, hx, hhead, rfl⟩)

def after (slot : Slot) (names : FreshNames) : FreshNames :=
  if slot.takesName then names.next.2 else names

theorem mem_used_after {names : FreshNames} {x : String} (h : x ∈ names.used) :
    x ∈ (slot.after names).used := by
  simp only [after]
  split
  · exact FreshNames.mem_used_next.2 (Or.inr h)
  · exact h

theorem Admits.binds_or_fresh {x : String} (h : slot.Admits s fresh (.var x)) :
    s.Binds slot.type x ∨ x = fresh ∧ slot.takesName = true := by
  cases h with
  | input h => exact Or.inl h
  | fresh h => exact Or.inr ⟨rfl, h⟩
  | output h => exact Or.inl h
  | bodyOutput h _ => exact Or.inl (Or.inr h)

end Slot

theorem exists_mem_zip {α β : Type} {xs : List α} {ys : List β} {x : α}
    (hlen : xs.length = ys.length) (h : x ∈ xs) : ∃ y, (x, y) ∈ xs.zip ys := by
  rw [← List.map_fst_zip (Nat.le_of_eq hlen)] at h
  obtain ⟨e, he, rfl⟩ := List.mem_map.1 h
  exact ⟨e.2, he⟩

theorem mem_choices {α : Type} {domains : List (List α)} {xs : List α} :
    xs ∈ choices domains ↔ List.Forall₂ (· ∈ ·) xs domains := by
  induction domains generalizing xs with
  | nil => rw [choices, List.mem_singleton, List.forall₂_nil_right_iff]
  | cons ys domains ih =>
      rw [choices, List.mem_flatMap]
      constructor
      · rintro ⟨y, hy, hxs⟩
        obtain ⟨zs, hzs, rfl⟩ := List.mem_map.1 hxs
        exact .cons hy (ih.1 hzs)
      · intro h
        cases h with
        | cons hy hzs => exact ⟨_, hy, List.mem_map_of_mem (ih.2 hzs)⟩

/-- The terms fill the slots. Each output takes a fresh name, also if it is filled with a variable
that is bound. -/
inductive Fills (s : Surroundings) : FreshNames → List Slot → List Term → Prop
  | nil {names : FreshNames} : Fills s names [] []
  | cons {names : FreshNames} {slot : Slot} {slots : List Slot} {t : Term} {ts : List Term}
      (first : slot.Admits s names.next.1 t) (rest : Fills s (slot.after names) slots ts) :
      Fills s names (slot :: slots) (t :: ts)

theorem forall₂_domains {s : Surroundings} {names : FreshNames} {slots : List Slot}
    {ts : List Term} :
    List.Forall₂ (· ∈ ·) ts (Slot.domains s slots names).1 ↔ Fills s names slots ts := by
  induction slots generalizing names ts with
  | nil =>
      rw [Slot.domains, List.forall₂_nil_right_iff]
      constructor
      · rintro rfl
        exact .nil
      · intro h
        cases h
        rfl
  | cons slot slots ih =>
      simp only [Slot.domains, Slot.domain]
      constructor
      · intro h
        cases h with
        | cons ht hts => exact .cons (Slot.mem_terms.1 (List.mem_eraseDups.1 ht)) (ih.1 hts)
      · intro h
        cases h with
        | cons ht hts => exact .cons (List.mem_eraseDups.2 (Slot.mem_terms.2 ht)) (ih.2 hts)

namespace Candidates

variable {s : Surroundings} {names : FreshNames} {l : Literal}

theorem mem_ofMode {m : Mode} :
    l ∈ ofMode s names m ↔ l.predicate = m.predicate ∧ Fills s names m.slots l.arguments := by
  simp only [ofMode, List.mem_map, mem_choices, forall₂_domains]
  constructor
  · rintro ⟨ts, hts, rfl⟩
    exact ⟨rfl, hts⟩
  · rintro ⟨hp, hts⟩
    exact ⟨l.arguments, hts, hp ▸ rfl⟩

theorem mem_generate {modes : List Mode} {allowed : Std.ExtTreeSet Predicate} :
    l ∈ generate modes allowed s names ↔ ∃ m ∈ modes, m.predicate ∈ allowed ∧
      m.eligible s = true ∧ l.predicate = m.predicate ∧ Fills s names m.slots l.arguments := by
  simp only [generate, Std.ExtTreeSet.mem_ofList, List.contains_iff_mem, List.mem_flatMap,
    List.mem_filter, Mode.allowed, Bool.and_eq_true, mem_ofMode, and_assoc,
    Std.ExtTreeSet.contains_iff_mem]

end Candidates

namespace Fills

variable {s : Surroundings} {names : FreshNames} {slots : List Slot} {ts : List Term} {x : String}

theorem exists_admits (h : Fills s names slots ts) : List.Forall₂ (fun slot t =>
    ∃ fresh, fresh ∉ names.used ∧ fresh ≠ Term.anonymousName ∧ slot.Admits s fresh t)
      slots ts := by
  induction h with
  | nil => exact .nil
  | cons first rest ih =>
      refine .cons ⟨_, FreshNames.next_not_mem, FreshNames.next_ne_anonymousName, first⟩ ?_
      refine ih.imp fun slot t ⟨fresh, hused, hne, h⟩ => ⟨fresh, ?_, hne, h⟩
      exact fun hx => hused (Slot.mem_used_after hx)

theorem binds_or_new (h : Fills s names slots ts) {type : String}
    (hx : (Term.var x, type) ∈ ts.zip (slots.map Slot.type)) :
    s.Binds type x ∨ x ∉ names.used ∧ x ≠ Term.anonymousName := by
  have hterms : List.Forall₂ (fun t type => ∀ x, t = Term.var x →
      s.Binds type x ∨ x ∉ names.used ∧ x ≠ Term.anonymousName) ts (slots.map Slot.type) := by
    refine List.forall₂_map_right_iff.2 (List.Forall₂.flip (h.exists_admits.imp ?_))
    rintro slot t ⟨fresh, hused, hne, ht⟩ x rfl
    rcases ht.binds_or_fresh with hbinds | ⟨rfl, _⟩
    · exact Or.inl hbinds
    · exact Or.inr ⟨hused, hne⟩
  exact List.forall₂_zip hterms hx x rfl

theorem binds_or_new_of_mem (h : Fills s names slots ts) (hx : Term.var x ∈ ts) :
    (∃ type, s.Binds type x) ∨ x ∉ names.used ∧ x ≠ Term.anonymousName := by
  have hlen : ts.length = (slots.map Slot.type).length := by
    rw [List.length_map, h.exists_admits.length_eq]
  obtain ⟨type, hzip⟩ := exists_mem_zip hlen hx
  exact (h.binds_or_new hzip).imp_left fun hbinds => ⟨type, hbinds⟩

theorem count_le_one (h : Fills s names slots ts) (hx : ∀ type, ¬ s.Binds type x) :
    ts.count (.var x) ≤ 1 := by
  induction h with
  | nil => exact Nat.zero_le _
  | @cons names slot slots t ts first rest ih =>
      by_cases ht : t = .var x
      · subst ht
        rcases first.binds_or_fresh with hbinds | ⟨rfl, htakes⟩
        · exact absurd hbinds (hx _)
        · have hafter : names.next.1 ∈ (slot.after names).used := by
            rw [Slot.after, if_pos htakes]
            exact FreshNames.mem_used_next.2 (Or.inl rfl)
          have hnone : ts.count (.var names.next.1) = 0 := by
            refine List.count_eq_zero.2 fun hmem => ?_
            rcases rest.binds_or_new_of_mem hmem with ⟨type, hbinds⟩ | ⟨hused, _⟩
            · exact hx type hbinds
            · exact hused hafter
          have hone : (Term.var names.next.1 :: ts).count (.var names.next.1) = 1 := by
            rw [List.count_cons_self, hnone]
          exact Nat.le_of_eq hone
      · rwa [List.count_cons_of_ne ht]

end Fills

end RuleInduction
