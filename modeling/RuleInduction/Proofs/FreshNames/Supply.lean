import Mathlib.Order.Bounds.Defs
import RuleInduction.Proofs.FreshNames

namespace RuleInduction.FreshNames

section Scan

variable {used : Std.ExtTreeSet String} {steps place found : Nat}

inductive Scan (used : Std.ExtTreeSet String) : Nat → Nat → Prop
  | free {place : Nat} (h : nameAt place ∉ used) : Scan used place place
  | pass {place found : Nat} (h : nameAt place ∈ used) (rest : Scan used (place + 1) found) :
      Scan used place found

theorem le_seek : place ≤ seek used steps place := by
  induction steps generalizing place with
  | zero => exact Nat.le_refl place
  | succ steps ih =>
      rw [seek]
      split
      · exact Nat.le_of_succ_le ih
      · exact Nat.le_refl place

theorem scan_of_mem (hle : place ≤ found) (hfree : nameAt found ∉ used)
    (hmem : ∀ k, place ≤ k → k < found → nameAt k ∈ used) : Scan used place found := by
  obtain ⟨n, rfl⟩ := Nat.exists_eq_add_of_le hle
  induction n generalizing place with
  | zero => exact .free hfree
  | succ n ih =>
      have hshift : place + 1 + n = place + (n + 1) := Nat.add_right_comm place 1 n
      refine .pass (hmem place (Nat.le_refl place) (by omega)) ?_
      rw [← hshift] at hfree hmem ⊢
      exact ih (Nat.le_add_right _ n) hfree fun k hk => hmem k (Nat.le_of_succ_le hk)

theorem scan_seek : Scan used place (seek used used.size place) :=
  scan_of_mem le_seek nameAt_seek_not_mem fun _ => mem_of_lt_seek

end Scan

def place (names : FreshNames) : Nat :=
  seek names.used names.used.size names.cursor

inductive Call where
  | next
  | reserve (name : String)

structure Supply where
  names : FreshNames
  reserved : List String
  returned : List String

namespace Supply

def ofUsed (initial : List String) : Supply :=
  ⟨.ofUsed initial, [], []⟩

def serve (s : Supply) : Call → Supply
  | .next => ⟨s.names.next.2, s.reserved, s.returned ++ [s.names.next.1]⟩
  | .reserve x => ⟨s.names.reserve x, s.reserved ++ [x], s.returned⟩

end Supply

inductive Request where
  | call (i : Nat) (c : Call)
  | copy (i : Nat)

namespace Request

def serve (supplies : List Supply) : Request → List Supply
  | .call i c => supplies.modify i (·.serve c)
  | .copy i => supplies ++ supplies[i]?.toList

def serveAll (initial : List String) (requests : List Request) : List Supply :=
  requests.foldl serve [.ofUsed initial]

end Request

namespace Supply

/-- The cursor stands behind names in use only, and behind all that were handed out. -/
structure Sound (initial : List String) (s : Supply) : Prop where
  mem_used : ∀ x, x ∈ s.names.used ↔ x ∈ initial ∨ x ∈ s.reserved ∨ x ∈ s.returned
  used_before : ∀ k, k < s.names.cursor → nameAt k ∈ s.names.used
  ordered : ∃ places : List Nat, s.returned = places.map nameAt ∧ places.Pairwise (· < ·) ∧
    ∀ k ∈ places, k < s.names.cursor
  not_initial : ∀ x ∈ s.returned, x ∉ initial

variable {initial : List String} {s : Supply}

theorem sound_ofUsed (initial : List String) : Sound initial (ofUsed initial) where
  mem_used := by
    intro x
    simp only [ofUsed, FreshNames.ofUsed, Std.ExtTreeSet.mem_ofList, List.contains_iff_mem,
      List.not_mem_nil, or_false]
  used_before := fun k hk => absurd hk (Nat.not_lt_zero k)
  ordered := ⟨[], rfl, .nil, fun k hk => absurd hk List.not_mem_nil⟩
  not_initial := fun x hx => absurd hx List.not_mem_nil

namespace Sound

theorem reserve (h : Sound initial s) (x : String) : Sound initial (s.serve (.reserve x)) where
  mem_used := by
    intro y
    simp only [serve, mem_used_reserve, h.mem_used, List.mem_append, List.mem_singleton]
    tauto
  used_before := fun k hk => mem_used_reserve.2 (Or.inr (h.used_before k hk))
  ordered := h.ordered
  not_initial := h.not_initial

theorem next (h : Sound initial s) : Sound initial (s.serve .next) where
  mem_used := by
    intro y
    simp only [serve, mem_used_next, h.mem_used, List.mem_append, List.mem_singleton]
    tauto
  used_before := by
    intro k hk
    refine mem_used_next.2 ?_
    rcases Nat.lt_or_ge k s.names.cursor with hlt | hge
    · exact Or.inr (h.used_before k hlt)
    · rcases Nat.lt_or_eq_of_le (Nat.le_of_lt_succ hk) with hlt | rfl
      · exact Or.inr (mem_of_lt_seek hge hlt)
      · exact Or.inl rfl
  ordered := by
    obtain ⟨places, hreturned, hpairwise, hlt⟩ := h.ordered
    have hbound : ∀ k ∈ places, k < s.names.place :=
      fun k hk => Nat.lt_of_lt_of_le (hlt k hk) le_seek
    refine ⟨places ++ [s.names.place], ?_, ?_, ?_⟩
    · simp only [serve, hreturned, List.map_append]
      rfl
    · refine List.pairwise_append.2 ⟨hpairwise, List.pairwise_singleton _ _, fun k hk l hl => ?_⟩
      obtain rfl := List.mem_singleton.1 hl
      exact hbound k hk
    · intro k hk
      rcases List.mem_append.1 hk with hk | hk
      · exact Nat.lt_succ_of_lt (hbound k hk)
      · obtain rfl := List.mem_singleton.1 hk
        exact Nat.lt_succ_self _
  not_initial := by
    intro x hx
    rcases List.mem_append.1 hx with hx | hx
    · exact h.not_initial x hx
    · obtain rfl := List.mem_singleton.1 hx
      exact fun hinitial => next_not_mem ((h.mem_used _).2 (Or.inl hinitial))

theorem serve (h : Sound initial s) (c : Call) : Sound initial (s.serve c) := by
  cases c with
  | next => exact h.next
  | reserve x => exact h.reserve x

theorem isLeast (h : Sound initial s) :
    IsLeast {k | nameAt k ∉ initial ++ s.reserved ++ s.returned} s.names.place := by
  have hused : ∀ x, x ∈ initial ++ s.reserved ++ s.returned ↔ x ∈ s.names.used := by
    intro x
    rw [h.mem_used, List.mem_append, List.mem_append, or_assoc]
  refine ⟨fun hmem => nameAt_seek_not_mem ((hused _).1 hmem), fun k hk => ?_⟩
  by_contra hlt
  refine hk ((hused _).2 ?_)
  rcases Nat.lt_or_ge k s.names.cursor with hbefore | hge
  · exact h.used_before k hbefore
  · exact mem_of_lt_seek hge (Nat.lt_of_not_le hlt)

end Sound

end Supply

theorem Request.sound_serve {initial : List String} {supplies : List Supply}
    (h : ∀ s ∈ supplies, s.Sound initial) (r : Request) :
    ∀ s ∈ r.serve supplies, s.Sound initial := by
  intro s hs
  cases r with
  | call i c =>
      obtain ⟨j, hj⟩ := List.mem_iff_getElem?.1 hs
      rw [Request.serve, List.getElem?_modify] at hj
      obtain ⟨s', hs', rfl⟩ := Option.map_eq_some_iff.1 hj
      have hsound := h s' (List.mem_of_getElem? hs')
      split
      · exact hsound.serve c
      · exact hsound
  | copy i =>
      rcases List.mem_append.1 hs with hs | hs
      · exact h s hs
      · exact h s (List.mem_of_getElem? (Option.mem_toList.1 hs))

theorem Request.sound_serveAll (initial : List String) (requests : List Request) :
    ∀ s ∈ serveAll initial requests, s.Sound initial :=
  List.foldlRecOn (motive := fun supplies => ∀ s ∈ supplies, s.Sound initial) requests serve
    (List.forall_mem_singleton.2 (Supply.sound_ofUsed initial)) fun _ h r _ => sound_serve h r

theorem next_isLeast (initial : List String) (requests : List Request) (s : Supply)
    (hs : s ∈ Request.serveAll initial requests) :
    (∃ place, Scan s.names.used s.names.cursor place ∧ s.names.next.1 = nameAt place ∧
      IsLeast {k | nameAt k ∉ initial ++ s.reserved ++ s.returned} place) ∧
    s.returned.Nodup ∧ (∀ x ∈ s.returned, x ∉ initial) ∧
    ∃ places : List Nat, s.returned = places.map nameAt ∧ places.Pairwise (· < ·) := by
  have hsound := Request.sound_serveAll initial requests s hs
  obtain ⟨places, hreturned, hpairwise, -⟩ := hsound.ordered
  refine ⟨⟨_, scan_seek, rfl, hsound.isLeast⟩, ?_, hsound.not_initial, places, hreturned,
    hpairwise⟩
  rw [hreturned]
  exact (hpairwise.imp Nat.ne_of_lt).map nameAt fun _ _ hne heq => hne (nameAt_injective heq)

theorem next_isLeast_of_copy :
    let requests : List Request :=
      [.call 0 .next, .copy 0, .call 1 (.reserve "D"), .call 1 .next, .call 0 .next, .call 0 .next]
    let names := Request.serveAll ["B", "Var3"] requests
    ∃ s ∈ names, s.returned = ["A", "C", "D"] ∧ s.returned.Nodup ∧
      ∃ place, s.names.next.1 = nameAt place ∧
        IsLeast {k | nameAt k ∉ ["B", "Var3"] ++ s.reserved ++ s.returned} place := by
  intro requests names
  obtain ⟨s, hs, hreturned⟩ : ∃ s ∈ names, s.returned = ["A", "C", "D"] :=
    ⟨_, List.mem_of_getElem? (i := 0) rfl, by decide +kernel⟩
  obtain ⟨⟨place, -, hname, hleast⟩, hnodup, -⟩ := next_isLeast ["B", "Var3"] requests s hs
  exact ⟨s, hs, hreturned, hnodup, place, hname, hleast⟩

end RuleInduction.FreshNames
