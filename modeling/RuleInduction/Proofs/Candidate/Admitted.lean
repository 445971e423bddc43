import RuleInduction.Proofs.Candidate
import RuleInduction.Proofs.Search.Run

namespace RuleInduction

namespace Slot

def nameFor (slots : List Slot) (names : FreshNames) (place : Nat) : String :=
  (names.take ((slots.take place).countP takesName)).2.next.1

variable {slot : Slot} {slots : List Slot} {names : FreshNames}

theorem nameFor_zero : nameFor (slot :: slots) names 0 = names.next.1 :=
  rfl

theorem nameFor_succ (place : Nat) :
    nameFor (slot :: slots) names (place + 1) = nameFor slots (slot.after names) place := by
  rw [nameFor, nameFor, after, List.take_succ_cons, List.countP_cons]
  split
  · rfl
  · rfl

end Slot

variable {s : Surroundings} {names : FreshNames} {slots : List Slot} {ts : List Term}

theorem Fills.admits_at (h : Fills s names slots ts) {i : Nat} {slot : Slot} {t : Term}
    (hslot : slots[i]? = some slot) (ht : ts[i]? = some t) :
    slot.Admits s (Slot.nameFor slots names i) t := by
  induction h generalizing i with
  | nil => cases hslot
  | cons first _ ih =>
      cases i with
      | zero =>
          cases hslot
          cases ht
          rw [Slot.nameFor_zero]
          exact first
      | succ i =>
          rw [Slot.nameFor_succ]
          exact ih hslot ht

theorem fills_of_admits_at (hlen : ts.length = slots.length)
    (h : ∀ (i : Nat) (slot : Slot) (t : Term), slots[i]? = some slot → ts[i]? = some t →
      slot.Admits s (Slot.nameFor slots names i) t) : Fills s names slots ts := by
  induction slots generalizing names ts with
  | nil =>
      rw [List.length_eq_zero_iff.1 hlen]
      exact .nil
  | cons slot slots ih =>
      cases ts with
      | nil => cases hlen
      | cons t ts =>
          refine .cons (h 0 slot t rfl rfl) (ih (Nat.succ.inj hlen) fun i slot' t' hslot ht => ?_)
          rw [← Slot.nameFor_succ]
          exact h (i + 1) slot' t' hslot ht

theorem fills_iff : Fills s names slots ts ↔ ts.length = slots.length ∧
    ∀ (i : Nat) (slot : Slot) (t : Term), slots[i]? = some slot → ts[i]? = some t →
      slot.Admits s (Slot.nameFor slots names i) t := by
  constructor
  · intro h
    exact ⟨h.exists_admits.length_eq.symm, fun _ _ _ => h.admits_at⟩
  · rintro ⟨hlen, h⟩
    exact fills_of_admits_at hlen h

theorem isEmpty_vars_iff {type : String} :
    (!(s.head.vars type).isEmpty || !(s.body.vars type).isEmpty) = true ↔ ∃ x, s.Binds type x := by
  simp only [Bool.or_eq_true, Bool.not_eq_true', List.isEmpty_eq_false_iff_exists_mem,
    Scope.mem_vars, Surroundings.Binds, exists_or]

theorem Mode.eligible_iff {m : Mode} : m.eligible s = true ↔
    ∀ slot ∈ m.slots, slot.symbol = .input → ∃ x, s.Binds slot.type x := by
  rw [eligible, List.all_eq_true]
  refine forall₂_congr fun slot _ => ?_
  rw [Bool.or_assoc, Bool.or_eq_true, isEmpty_vars_iff, decide_eq_true_eq]
  exact Decidable.imp_iff_not_or.symm

theorem mem_generate_iff (modes : List Mode) (allowed : Std.ExtTreeSet Predicate)
    (s : Surroundings) (names : FreshNames) :
    (∀ l : Literal, l ∈ Candidates.generate modes allowed s names ↔
      ∃ m ∈ modes, m.predicate ∈ allowed ∧ l.predicate = m.predicate ∧
        l.arguments.length = m.arity ∧
        (∀ slot ∈ m.slots, slot.symbol = .input → ∃ x, s.Binds slot.type x) ∧
        ∀ (i : Nat) (slot : Slot) (t : Term), m.slots[i]? = some slot →
          l.arguments[i]? = some t → slot.Admits s (Slot.nameFor m.slots names i) t) ∧
    ∀ {G : Type} [RandomSource G] (search : ClauseSearch) (state next : SearchState)
      (g g' : Option G),
      search.round state g = (.grown next, g') → ∃ allowed l,
        l ∈ Candidates.generate search.space.modes allowed
          ⟨search.space.constants, search.headScope, state.body⟩ state.names ∧
        next.clause = state.clause ++ [l] ∧
        next.names = l.vars.foldl FreshNames.reserve state.names := by
  refine ⟨fun l => ?_, ?_⟩
  · simp only [Candidates.mem_generate, Mode.eligible_iff, fills_iff, Mode.arity,
      and_left_comm (a := ∀ slot ∈ _, _)]
  · intro G _ search state next g g' h
    obtain ⟨l, hl, rfl⟩ := ClauseSearch.accepts_of_round h
    obtain ⟨allowed, _, hmem⟩ := hl.candidate
    exact ⟨allowed, l, hmem, rfl, rfl⟩

-- The first output takes a name although it is filled with a variable of the head, so the second
-- may not introduce that name.
theorem mem_generate_iff_of_two_outputs :
    let mode : Mode := ⟨"rated", [⟨.input, "movie"⟩, ⟨.output, "person"⟩, ⟨.bodyOutput, "person"⟩,
      ⟨.constant, "mark"⟩]⟩
    let s : Surroundings := ⟨.ofList [("mark", "\"good\"")], ⟨[("movie", "A"), ("person", "B")]⟩,
      ⟨[("person", "C")]⟩⟩
    let candidates := Candidates.generate [mode] (.ofList ["rated"]) s (.ofUsed ["A", "B", "C"])
    ⟨"rated", [.var "A", .var "B", .var "E", .const "good"]⟩ ∈ candidates ∧
      ⟨"rated", [.var "A", .var "B", .var "D", .const "good"]⟩ ∉ candidates := by
  intro mode s candidates
  have hfresh : Slot.nameFor mode.slots (.ofUsed ["A", "B", "C"]) 2 = "E" := by decide +kernel
  have h := (mem_generate_iff [mode] (.ofList ["rated"]) s (.ofUsed ["A", "B", "C"])).1
  refine ⟨(h _).2 ?_, fun hmem => ?_⟩
  · refine ⟨mode, List.mem_singleton.2 rfl, by simp [mode], rfl, rfl,
      Mode.eligible_iff.1 rfl, fun i slot t hslot ht => ?_⟩
    match i with
    | 0 =>
        cases hslot
        cases ht
        exact .input (Or.inl (by simp [s]))
    | 1 =>
        cases hslot
        cases ht
        exact .output (Or.inl (by simp [s]))
    | 2 =>
        cases hslot
        cases ht
        exact hfresh ▸ .fresh rfl
    | 3 =>
        cases hslot
        cases ht
        have hgood : Term.const "good" = .ofValue "\"good\"" := rfl
        exact hgood ▸ .constant (by decide)
    | _ + 4 => cases hslot
  · obtain ⟨m, hm, _, _, _, _, hargs⟩ := (h _).1 hmem
    obtain rfl := List.mem_singleton.1 hm
    rcases (hargs 2 _ _ rfl rfl).binds_or_fresh with hbinds | ⟨hx, _⟩
    · simp [s, Surroundings.Binds] at hbinds
    · rw [hfresh] at hx
      simp at hx

end RuleInduction
