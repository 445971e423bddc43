import Mathlib.Data.List.Nodup
import Mathlib.Data.List.Perm.Subperm
import RuleInduction.FreshNames
import RuleInduction.Term

namespace RuleInduction.FreshNames

theorem nameAt_of_lt {place : Nat} (h : place < 26) :
    nameAt place = String.singleton (Char.ofNat (0x41 + place)) := by
  rw [nameAt, if_pos h]

theorem nameAt_of_ge {place : Nat} (h : 26 ≤ place) :
    nameAt place = "Var" ++ Nat.repr (place - 25) := by
  rw [nameAt, if_neg (Nat.not_lt.2 h)]

theorem toNat_letter {place : Nat} (h : place < 26) :
    (Char.ofNat (0x41 + place)).toNat = 0x41 + place := by
  revert place
  decide

theorem repr_injective {m n : Nat} (h : Nat.repr m = Nat.repr n) : m = n := by
  have hdigits := congrArg (fun s => Nat.ofDigitChars 10 (String.toList s) 0) h
  simpa only [Nat.toList_repr, Nat.ofDigitChars_toDigits (by decide : 1 < 10) (Nat.le_refl 10)]
    using hdigits

theorem numbered_ne_singleton (n : Nat) (c : Char) : "Var" ++ Nat.repr n ≠ String.singleton c := by
  intro h
  have hlen := congrArg String.length h
  rw [String.length_append, String.length_singleton] at hlen
  have hvar : "Var".length = 3 := rfl
  omega

theorem nameAt_injective {m n : Nat} (h : nameAt m = nameAt n) : m = n := by
  rcases Nat.lt_or_ge m 26 with hm | hm <;> rcases Nat.lt_or_ge n 26 with hn | hn
  · rw [nameAt_of_lt hm, nameAt_of_lt hn] at h
    have hc := congrArg String.toList h
    simp only [String.toList_singleton, List.cons.injEq, and_true] at hc
    have hnat := congrArg Char.toNat hc
    rw [toNat_letter hm, toNat_letter hn] at hnat
    omega
  · rw [nameAt_of_lt hm, nameAt_of_ge hn] at h
    exact absurd h.symm (numbered_ne_singleton _ _)
  · rw [nameAt_of_ge hm, nameAt_of_lt hn] at h
    exact absurd h (numbered_ne_singleton _ _)
  · rw [nameAt_of_ge hm, nameAt_of_ge hn] at h
    have hrepr := repr_injective (String.append_right_inj _ |>.1 h)
    omega

theorem nameAt_ne_anonymousName (place : Nat) : nameAt place ≠ Term.anonymousName := by
  have hanonymous : Term.anonymousName = String.singleton '_' := rfl
  rw [hanonymous]
  rcases Nat.lt_or_ge place 26 with hp | hp
  · rw [nameAt_of_lt hp]
    intro h
    have hc := congrArg String.toList h
    simp only [String.toList_singleton, List.cons.injEq, and_true] at hc
    have hnat := congrArg Char.toNat hc
    rw [toNat_letter hp] at hnat
    have hlow : '_'.toNat = 95 := rfl
    omega
  · rw [nameAt_of_ge hp]
    exact numbered_ne_singleton _ _

section Seek

variable {used : Std.ExtTreeSet String} {steps place : Nat}

theorem mem_of_lt_seek {k : Nat} (hk : place ≤ k) (h : k < seek used steps place) :
    nameAt k ∈ used := by
  induction steps generalizing place with
  | zero =>
      rw [seek] at h
      omega
  | succ steps ih =>
      rw [seek] at h
      split at h
      · next hplace =>
          rcases Nat.eq_or_lt_of_le hk with rfl | hlt
          · exact hplace
          · exact ih hlt h
      · omega

theorem seek_of_mem (h : nameAt (seek used steps place) ∈ used) :
    seek used steps place = place + steps := by
  induction steps generalizing place with
  | zero => rfl
  | succ steps ih =>
      rw [seek] at h ⊢
      split at h
      · next hplace =>
          rw [if_pos hplace, ih h]
          omega
      · next hplace => exact absurd h hplace

theorem length_le_size {places : List Nat} (hn : places.Nodup)
    (h : ∀ k ∈ places, nameAt k ∈ used) : places.length ≤ used.size := by
  have hnames : (places.map nameAt).Nodup := hn.map fun _ _ => nameAt_injective
  have hsub : places.map nameAt ⊆ used.toList := by
    intro x hx
    obtain ⟨k, hk, rfl⟩ := List.mem_map.1 hx
    exact Std.ExtTreeSet.mem_toList.2 (h k hk)
  have hle := (hnames.subperm hsub).length_le
  rwa [List.length_map, Std.ExtTreeSet.length_toList] at hle

theorem nameAt_seek_not_mem : nameAt (seek used used.size place) ∉ used := by
  intro h
  have heq := seek_of_mem h
  have hall : ∀ k ∈ List.range' place (used.size + 1), nameAt k ∈ used := by
    intro k hk
    obtain ⟨hle, hlt⟩ := List.mem_range'_1.1 hk
    rcases Nat.lt_or_ge k (seek used used.size place) with hk | hk
    · exact mem_of_lt_seek hle hk
    · have : k = seek used used.size place := by omega
      exact this ▸ h
  have hle := length_le_size (List.nodup_range' 1) hall
  rw [List.length_range'] at hle
  omega

end Seek

variable {names : FreshNames}

theorem next_not_mem : names.next.1 ∉ names.used :=
  nameAt_seek_not_mem

theorem next_ne_anonymousName : names.next.1 ≠ Term.anonymousName :=
  nameAt_ne_anonymousName _

theorem mem_used_next {x : String} :
    x ∈ names.next.2.used ↔ x = names.next.1 ∨ x ∈ names.used := by
  simp only [next, Std.ExtTreeSet.mem_insert, Std.LawfulEqOrd.compare_eq_iff_eq]
  exact or_congr_left eq_comm

theorem mem_used_reserve {x y : String} :
    x ∈ (names.reserve y).used ↔ x = y ∨ x ∈ names.used := by
  simp only [reserve, Std.ExtTreeSet.mem_insert, Std.LawfulEqOrd.compare_eq_iff_eq]
  exact or_congr_left eq_comm

theorem mem_used_foldl_reserve {x : String} {ys : List String} :
    x ∈ (ys.foldl reserve names).used ↔ x ∈ ys ∨ x ∈ names.used := by
  induction ys generalizing names with
  | nil => simp
  | cons y ys ih =>
      rw [List.foldl_cons, ih, mem_used_reserve, List.mem_cons, ← or_assoc]
      exact or_congr_left or_comm

theorem length_take (n : Nat) : (names.take n).1.length = n := by
  induction n generalizing names with
  | zero => rfl
  | succ n ih => exact congrArg (· + 1) ih

theorem mem_used_take {n : Nat} {x : String} :
    x ∈ (names.take n).2.used ↔ x ∈ (names.take n).1 ∨ x ∈ names.used := by
  induction n generalizing names with
  | zero => simp [take]
  | succ n ih =>
      simp only [take]
      rw [ih, mem_used_next, List.mem_cons]
      exact or_left_comm.trans or_assoc.symm

theorem not_mem_used_of_mem_take {n : Nat} {x : String} (h : x ∈ (names.take n).1) :
    x ∉ names.used ∧ x ≠ Term.anonymousName := by
  induction n generalizing names with
  | zero => cases h
  | succ n ih =>
      rcases List.mem_cons.1 h with rfl | h
      · exact ⟨next_not_mem, next_ne_anonymousName⟩
      · obtain ⟨hused, hne⟩ := ih h
        exact ⟨fun hx => hused (mem_used_next.2 (Or.inr hx)), hne⟩

theorem nodup_take (n : Nat) : (names.take n).1.Nodup := by
  induction n generalizing names with
  | zero => exact List.nodup_nil
  | succ n ih =>
      refine List.nodup_cons.2 ⟨fun h => ?_, ih⟩
      exact (not_mem_used_of_mem_take h).1 (mem_used_next.2 (Or.inl rfl))

end RuleInduction.FreshNames
