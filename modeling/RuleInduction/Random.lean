namespace RuleInduction

/-- A source of random words of 32 and 64 bits. -/
class RandomSource (G : Type) where
  word32 : G → UInt32 × G
  word64 : G → UInt64 × G

namespace Random

inductive Width where
  | narrow
  | wide
  deriving DecidableEq, Repr

def Width.bits : Width → Nat
  | narrow => 32
  | wide => 64

def Width.size (w : Width) : Nat :=
  1 <<< w.bits

def width (n : Nat) : Width :=
  if n < Width.narrow.size then .narrow else .wide

variable {G : Type} [RandomSource G] {α : Type}

def word (w : Width) (g : G) : Nat × G :=
  match w with
  | .narrow =>
    let (word, g) := RandomSource.word32 g
    (word.toNat, g)
  | .wide =>
    let (word, g) := RandomSource.word64 g
    (word.toNat, g)

/-- Draws words until one of them is read. A source may have none that is, and then there is no
answer. -/
def Width.draw? (w : Width) (read : Nat → Option α) (g : G) : Option (α × G) :=
  let (word, g) := word w g
  match read word with
  | some a => some (a, g)
  | none => w |>.draw? read g
partial_fixpoint

def answer (default : α) : Option (α × G) → α × Option G
  | some (a, g) => (a, some g)
  | none => (default, none)

def answered (r : α × Option G) : Option (α × G) :=
  r.2.map fun g => (r.1, g)

instance : RandomSource (Option G) where
  word32 g := answer 0 (g.map RandomSource.word32)
  word64 g := answer 0 (g.map RandomSource.word64)

/-- The high half of `n` times a word. Words whose low half lies outside the zone are not read, so
that all numbers are equally likely. -/
def scaled? (n zone word : Nat) : Option Nat :=
  let product := word * n
  let size := (width n).size
  if product % size ≤ zone then some (product / size) else none

def zone (n : Nat) : Nat :=
  n <<< ((width n).bits - 1 - n.log2) - 1

def exactZone (n : Nat) : Nat :=
  (width n).size - 1 - (width n).size % n

def below (n : Nat) (g : Option G) : Nat × Option G :=
  answer 0 (g.bind ((width n).draw? (scaled? n (zone n))))

def shuffleFrom : Nat → Array α → Option G → Array α × Option G
  | 0, xs, g => (xs, g)
  | i + 1, xs, g =>
    let (j, g) := below (i + 2) g
    shuffleFrom i (xs.swapIfInBounds (i + 1) j) g

def shuffle (xs : List α) (g : Option G) : List α × Option G :=
  let (ys, g) := shuffleFrom (xs.length - 1) xs.toArray g
  (ys.toList, g)

section Bounds

variable {n zone k : Nat} {w : Width} {read : Nat → Option α} {a : α} {g g' : G}

theorem Width.size_pos (w : Width) : 0 < w.size := by
  cases w <;> decide

theorem word_lt (w : Width) (g : G) : (word w g).1 < w.size := by
  cases w with
  | narrow => exact UInt32.toNat_lt _
  | wide => exact UInt64.toNat_lt _

theorem exists_word_of_draw? (h : w.draw? read g = some (a, g')) :
    ∃ h : G, read (word w h).1 = some a ∧ g' = (word w h).2 := by
  refine Width.draw?.partial_correctness w read (fun _ r => ∃ h : G, read (word w h).1 = some r.1 ∧
    r.2 = (word w h).2) (fun draw ih g r hr => ?_) g (a, g') h
  dsimp only at hr
  split at hr
  · next hread =>
      cases hr
      exact ⟨g, hread, rfl⟩
  · exact ih _ _ hr

theorem scaled?_lt (hn : 0 < n) {word : Nat} (hword : word < (width n).size)
    (h : scaled? n zone word = some k) : k < n := by
  rw [scaled?, Option.ite_none_right_eq_some] at h
  rw [← Option.some.inj h.2, Nat.div_lt_iff_lt_mul (width n).size_pos, Nat.mul_comm n]
  exact Nat.mul_lt_mul_of_pos_right hword hn

theorem below_lt (hn : 0 < n) (g : Option G) : (below n g).1 < n := by
  rw [below]
  cases hdraw : g.bind ((width n).draw? (scaled? n (Random.zone n))) with
  | none => exact hn
  | some r =>
      obtain ⟨g, rfl, hdraw⟩ := Option.bind_eq_some_iff.1 hdraw
      obtain ⟨h, hread, -⟩ := exists_word_of_draw? hdraw
      exact scaled?_lt hn (word_lt _ h) hread

end Bounds

theorem swapIfInBounds_perm (xs : Array α) (i j : Nat) :
    (xs.swapIfInBounds i j).Perm xs := by
  simp only [Array.swapIfInBounds]
  split
  · split
    · exact Array.swap_perm _ _
    · exact Array.Perm.refl _
  · exact Array.Perm.refl _

theorem shuffleFrom_perm (i : Nat) (xs : Array α) (g : Option G) :
    (shuffleFrom i xs g).1.Perm xs := by
  induction i generalizing xs g with
  | zero => exact Array.Perm.refl _
  | succ i ih =>
      simp only [shuffleFrom]
      exact (ih _ _).trans (swapIfInBounds_perm _ _ _)

theorem shuffle_perm (xs : List α) (g : Option G) : (shuffle xs g).1.Perm xs :=
  (shuffleFrom_perm _ _ g).toList

end Random

end RuleInduction
