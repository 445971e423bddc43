import Mathlib.Algebra.Group.Nat.Defs
import Mathlib.Data.List.Perm.Subperm
import RuleInduction.Proofs.Random.Sample

namespace RuleInduction.Random

variable {G : Type} [RandomSource G] {α : Type} {g h : G} {o : Option G} {w : Width}

inductive Reaches : G → G → Prop
  | refl (g : G) : Reaches g g
  | word (w : Width) {g h : G} (rest : Reaches (word w g).2 h) : Reaches g h

theorem Reaches.trans {h' : G} (hg : Reaches g h) (hh : Reaches h h') : Reaches g h' := by
  induction hg with
  | refl g => exact hh
  | word w _ ih => exact .word w (ih hh)

inductive Comes (w : Width) (p : Nat → Prop) : G → Prop
  | now {g : G} (h : p (word w g).1) : Comes w p g
  | later {g : G} (h : Comes w p (word w g).2) : Comes w p g

theorem Comes.imp {p q : Nat → Prop} (hpq : ∀ word, p word → q word) (h : Comes w p g) :
    Comes w q g := by
  induction h with
  | now h => exact .now (hpq _ h)
  | later _ ih => exact .later ih

/-- From all states that the source comes to, a draw of a number meets a word in its zone. -/
def Answers (g : G) : Prop :=
  ∀ h, Reaches g h → ∀ n,
    Comes (width n) (fun word => word * n % (width n).size ≤ zone n) h

/-- From all states that the source comes to, each word comes again. -/
def Fair (g : G) : Prop :=
  ∀ h, Reaches g h → ∀ w, ∀ word < w.size, Comes w (· = word) h

theorem Fair.of_reaches (hg : Fair g) (hreach : Reaches g h) : Fair h :=
  fun _ hh => hg _ (hreach.trans hh)

-- The word zero lies in every zone.
theorem Fair.answers (hg : Fair g) : Answers g := by
  intro h hreach n
  refine (hg h hreach (width n) 0 (width n).size_pos).imp ?_
  rintro _ rfl
  rw [Nat.zero_mul, Nat.zero_mod]
  exact Nat.zero_le _

section Draw

variable {read : Nat → Option α}

theorem exists_draw?_of_comes (hcomes : Comes w (fun word => (read word).isSome = true) g) :
    ∃ a h, w.draw? read g = some (a, h) ∧ Reaches g h := by
  induction hcomes with
  | @now g hread =>
      obtain ⟨a, ha⟩ := Option.isSome_iff_exists.1 hread
      refine ⟨a, (word w g).2, ?_, .word w (.refl _)⟩
      rw [Width.draw?]
      simp only [ha]
  | @later g _ ih =>
      obtain ⟨a, h, hdraw, hreach⟩ := ih
      rw [Width.draw?]
      cases hread : read (word w g).1 with
      | none => exact ⟨a, h, by simpa only [hread] using hdraw, .word w hreach⟩
      | some b => exact ⟨b, (word w g).2, by simp only [hread], .word w (.refl _)⟩

theorem isSome_draw?_iff :
    (w.draw? read g).isSome = true ↔ Comes w (fun word => (read word).isSome = true) g := by
  constructor
  · intro hsome
    obtain ⟨r, hr⟩ := Option.isSome_iff_exists.1 hsome
    refine Width.draw?.partial_correctness w read
      (fun g _ => Comes w (fun word => (read word).isSome = true) g) (fun draw ih g r hr => ?_) g r hr
    dsimp only at hr
    split at hr
    · next hread => exact .now (Option.isSome_iff_exists.2 ⟨_, hread⟩)
    · exact .later (ih _ _ hr)
  · intro hcomes
    obtain ⟨a, h, hdraw, -⟩ := exists_draw?_of_comes hcomes
    rw [hdraw]
    rfl

end Draw

def Remains (g : G) (o : Option G) : Prop :=
  ∃ h, o = some h ∧ Reaches g h

theorem Remains.refl (g : G) : Remains g (some g) :=
  ⟨g, rfl, .refl g⟩

section Answers

variable (hg : Answers g) (ho : Remains g o)

include hg ho

theorem Remains.below (n : Nat) : Remains g (below n o).2 := by
  obtain ⟨g₁, rfl, hreach⟩ := ho
  have hcomes := (hg g₁ hreach n).imp (q := fun word => (scaled? n (zone n) word).isSome = true)
    fun word hword => by simp only [scaled?, if_pos hword, Option.isSome_some]
  obtain ⟨k, g₂, hdraw, hdrawn⟩ := exists_draw?_of_comes hcomes
  refine ⟨g₂, ?_, hreach.trans hdrawn⟩
  rw [Random.below, Option.bind_some, hdraw]
  rfl

theorem Remains.shuffleFrom (i : Nat) (xs : Array α) : Remains g (shuffleFrom i xs o).2 := by
  induction i generalizing xs o with
  | zero => exact ho
  | succ i ih => exact ih (ho.below hg _) _

theorem Remains.shuffle (xs : List α) : Remains g (shuffle xs o).2 :=
  ho.shuffleFrom hg _ _

theorem Remains.shuffleFront (n i : Nat) (places : Array Nat) :
    Remains g (shuffleFront n i places o).2 := by
  induction n generalizing i places o with
  | zero => exact ho
  | succ n ih => exact ih (ho.below hg _) _ _

theorem Remains.pickDistinct (n j : Nat) (chosen : List Nat) :
    Remains g (pickDistinct n j chosen o).2 := by
  induction n generalizing j chosen o with
  | zero => exact ho
  | succ n ih => exact ih (ho.below hg _) _ _

theorem Remains.samplePicked (length size : Nat) : Remains g (samplePicked length size o).2 := by
  have hpick := ho.pickDistinct hg size (length - size) []
  simp only [Random.samplePicked]
  split
  · exact hpick
  · exact hpick.shuffle hg _

theorem Remains.sampleInPlace (length size : Nat) : Remains g (sampleInPlace length size o).2 :=
  ho.shuffleFront hg _ _ _

end Answers

section Free

variable {length place : Nat} {chosen : List Nat}

theorem le_size (hlength : length < 2 ^ 64) : length ≤ (width length).size := by
  rw [width]
  split
  · next h => exact Nat.le_of_lt h
  · exact Nat.le_of_lt hlength

theorem exists_free (h : chosen.length < length) : ∃ place < length, place ∉ chosen := by
  refine Classical.byContradiction fun hnone => ?_
  have hsubset : List.range length ⊆ chosen := fun place hplace =>
    Classical.not_not.1 fun hfree => hnone ⟨place, List.mem_range.1 hplace, hfree⟩
  have hle := (List.nodup_range.subperm hsubset).length_le
  rw [List.length_range] at hle
  omega

theorem mod_add_le {n size : Nat} (hn : 0 < n) (h : n ≤ size) : size % n + n ≤ size := by
  have hdiv := Nat.mod_add_div size n
  have hquotient := Nat.le_mul_of_pos_right n (Nat.div_pos h hn)
  omega

-- The least word whose product reaches the share of `k` goes beyond it by less than `n`, and the
-- zone leaves out less than that at its end.
theorem exists_word_of_lt {n size k : Nat} (hsize : n ≤ size) (hk : k < n) :
    ∃ word < size, word * n % size ≤ size - 1 - size % n ∧ word * n / size = k := by
  have hn : 0 < n := Nat.zero_lt_of_lt hk
  obtain ⟨word, r, hproduct, hr⟩ : ∃ word r, word * n = r + size * k ∧ r < n := by
    refine ⟨(size * k + (n - 1)) / n, n - 1 - (size * k + (n - 1)) % n, ?_, by omega⟩
    have hdiv := Nat.mod_add_div (size * k + (n - 1)) n
    have hmod := Nat.mod_lt (size * k + (n - 1)) hn
    rw [Nat.mul_comm n] at hdiv
    omega
  have hzone := mod_add_le hn hsize
  have hlast : size * k + size ≤ size * n := Nat.mul_le_mul_left size hk
  refine ⟨word, Nat.lt_of_mul_lt_mul_right (a := n) ?_, ?_, ?_⟩
  · omega
  · rw [hproduct, Nat.add_mul_mod_self_left, Nat.mod_eq_of_lt (by omega)]
    omega
  · rw [hproduct, Nat.add_mul_div_left _ _ (by omega), Nat.div_eq_of_lt (by omega), Nat.zero_add]

theorem exists_word_of_place (hlength : length < 2 ^ 64) (hplace : place < length) :
    ∃ word < (width length).size, scaled? length (exactZone length) word = some place := by
  obtain ⟨word, hword, hzone, hdiv⟩ := exists_word_of_lt (le_size hlength) hplace
  exact ⟨word, hword, by simp only [scaled?, exactZone, if_pos hzone, hdiv]⟩

theorem exists_pickFree? {n : Nat} (hg : Fair g) (hlength : length < 2 ^ 64)
    (hroom : chosen.length + n ≤ length) :
    ∃ places h, pickFree? length n chosen g = some (places, h) ∧ Reaches g h := by
  induction n generalizing chosen g with
  | zero => exact ⟨chosen, g, rfl, .refl g⟩
  | succ n ih =>
      obtain ⟨place, hplace, hfree⟩ : ∃ place < length, place ∉ chosen := exists_free (by omega)
      obtain ⟨word, hword, hscaled⟩ := exists_word_of_place hlength hplace
      have hcomes : Comes (width length) (fun word => (free? length chosen word).isSome = true) g := by
        refine (hg g (.refl g) _ word hword).imp ?_
        rintro _ rfl
        simp only [free?, hscaled, Option.filter_some, hfree, not_false_eq_true, decide_true, if_true,
          Option.isSome_some]
      obtain ⟨a, g₁, hdraw, hreach⟩ := exists_draw?_of_comes hcomes
      have hsnoc : (chosen ++ [a]).length = chosen.length + 1 := List.length_append
      have hroom : (chosen ++ [a]).length + n ≤ length := by omega
      obtain ⟨places, g₂, hpick, hrest⟩ := ih (hg.of_reaches hreach) hroom
      refine ⟨places, g₂, ?_, hreach.trans hrest⟩
      rw [pickFree?, hdraw]
      exact hpick

end Free

section Fair

variable (hg : Fair g)

include hg

theorem Remains.sampleFree {length size : Nat} (ho : Remains g o) (hlength : length < 2 ^ 64)
    (hsize : size ≤ length) : Remains g (sampleFree length size o).2 := by
  obtain ⟨g₁, rfl, hreach⟩ := ho
  have hroom : ([] : List Nat).length + size ≤ length := by rwa [List.length_nil, Nat.zero_add]
  obtain ⟨places, g₂, hpick, hrest⟩ := exists_pickFree? (hg.of_reaches hreach) hlength hroom
  refine ⟨g₂, ?_, hreach.trans hrest⟩
  rw [Random.sampleFree, Option.bind_some, hpick]
  rfl

theorem Remains.sample {length size : Nat} (ho : Remains g o) (hlength : length < 2 ^ 64)
    (hsize : size ≤ length) : Remains g (sample length size o).2 := by
  rw [Random.sample]
  cases sampleMethod length size with
  | inPlace => exact ho.sampleInPlace hg.answers _ _
  | picked => exact ho.samplePicked hg.answers _ _
  | free => exact ho.sampleFree hg hlength hsize

theorem remains_subsequence (xs : List α) (size : Nat) (hlength : xs.length < 2 ^ 64) :
    Remains g (subsequence xs size g).2 := by
  rw [subsequence]
  split
  · exact .refl g
  · next hsize => exact (Remains.refl g).sample hg hlength (by omega)

end Fair

end RuleInduction.Random
