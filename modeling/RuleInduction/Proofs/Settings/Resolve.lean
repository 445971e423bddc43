import RuleInduction.Proofs.FloatBounds
import RuleInduction.Proofs.FloatWhole

namespace RuleInduction

open FloatValue FloatArithmetic FloatCount

section Parts

variable {x : Float} {n : ℕ}

theorem isFraction_iff : isFraction x = true ↔ 0.0 < x ∧ x ≤ 1.0 := by
  rw [isFraction, Bool.and_eq_true, decide_eq_true_eq, decide_eq_true_eq]

structure IsPart (n : ℕ) (y : Float) : Prop where
  finite : y.isFinite = true
  nonneg : 0 ≤ toRat y
  le : toRat y ≤ n

namespace IsPart

variable {y : Float} (h : IsPart n y) (hn : n ≤ 2 ^ 53)

include h

theorem floor_le : ⌊toRat y⌋₊ ≤ n :=
  Nat.floor_le_of_le h.le

theorem ceil_le : ⌈toRat y⌉₊ ≤ n :=
  Nat.ceil_le.2 h.le

include hn

theorem le_limit : toRat y ≤ 2 ^ 53 :=
  h.le.trans (by exact_mod_cast hn)

theorem wholeBelow_eq : wholeBelow y = ⌊toRat y⌋₊ :=
  FloatWhole.wholeBelow_eq_floor h.finite h.nonneg ((h.le_limit hn).trans_lt (by norm_num))

theorem wholeAbove_eq : wholeAbove y = ⌈toRat y⌉₊ :=
  FloatWhole.wholeAbove_eq_ceil h.finite h.nonneg (h.le_limit hn)

end IsPart

variable (hx : 0.0 < x ∧ x ≤ 1.0) (hn : n ≤ 2 ^ 53)

include hx

theorem value_of_fraction : x.isFinite = true ∧ 0 < toRat x ∧ toRat x ≤ 1 := by
  obtain ⟨hfinite, -, hle⟩ :=
    FloatBounds.finite_of_between hasValue_zero hasValue_one (FloatOrder.le_of_lt hx.1) hx.2
  refine ⟨hfinite, ?_, hle⟩
  rw [← hasValue_zero.toRat_eq]
  exact (lt_iff_toRat hasValue_zero.finite hfinite).1 hx.1

include hn

theorem isPart_mul : IsPart n (x * Float.ofNat n) := by
  obtain ⟨hfinite, hpos, hle⟩ := value_of_fraction hx
  have hcount := hasValue_ofNat hn
  have hproduct := ordinal_mul hfinite hcount.finite
  rw [hcount.toRat_eq] at hproduct
  have hlower : 0.0 ≤ x * Float.ofNat n :=
    ge_of_ordinal hasValue_zero hproduct (mul_nonneg hpos.le (Nat.cast_nonneg n))
  have hupper : x * Float.ofNat n ≤ Float.ofNat n :=
    le_of_ordinal hcount hproduct (mul_le_of_le_one_left (Nat.cast_nonneg n) hle)
  obtain ⟨hfinite, hnonneg, hle⟩ :=
    FloatBounds.finite_of_between hasValue_zero hcount hlower hupper
  exact ⟨hfinite, hnonneg, hle⟩

-- A tiny fraction of one example or more is not rounded to nothing: the product is never below the
-- fraction.
theorem one_le_ceil_iff : 1 ≤ ⌈toRat (x * Float.ofNat n)⌉₊ ↔ 1 ≤ n := by
  have hpart := isPart_mul hx hn
  refine ⟨fun h => h.trans hpart.ceil_le, fun h => ?_⟩
  obtain ⟨hfinite, hpos, -⟩ := value_of_fraction hx
  have hcount := hasValue_ofNat hn
  have hproduct := ordinal_mul hfinite hcount.finite
  have hle : x ≤ x * Float.ofNat n := by
    refine ge_of_ordinal ⟨hfinite, rfl⟩ hproduct ?_
    rw [hcount.toRat_eq]
    exact le_mul_of_one_le_right hpos.le (by exact_mod_cast h)
  exact Nat.ceil_pos.2 (hpos.trans_le ((le_iff_toRat hfinite hpart.finite).1 hle))

omit hx in
theorem toRat_whole_part : toRat (1.0 * Float.ofNat n) = n := by
  have hcount := hasValue_ofNat hn
  have hproduct := ordinal_mul hasValue_one.finite hcount.finite
  rw [hasValue_one.toRat_eq, one_mul, hcount.toRat_eq, ← hcount.ordinal_eq] at hproduct
  exact (hcount.of_ordinal_eq hproduct).toRat_eq

end Parts

theorem mapM_eq_ok_iff {ε α β : Type} {f : α → Except ε β} {P : α → Prop} {g : α → β}
    (hf : ∀ a b, f a = .ok b ↔ P a ∧ g a = b) {o : Option α} {o' : Option β} :
    o.mapM f = .ok o' ↔ (∀ a ∈ o, P a) ∧ o.map g = o' := by
  cases o with
  | none => exact Except.ok.injEq none o' ▸ (and_iff_right fun a ha => by cases ha).symm
  | some a =>
      have hmap : (some a).mapM f = f a >>= fun b => .ok (some b) := by
        cases h : f a <;> simp only [Option.mapM_some, h] <;> rfl
      rw [hmap, bind_eq_ok]
      simp only [hf, Except.ok.injEq, Option.mem_some_iff, forall_eq', Option.map_some, and_assoc,
        exists_and_left, exists_eq_left']

namespace Limit

variable {setting : String} {round : Float → ℕ} {total m : ℕ} {l : Limit}

theorem checkCount_eq_ok_iff {n : ℕ} : checkCount setting n = .ok m ↔ 1 ≤ n ∧ n = m := by
  rw [checkCount]
  split
  · next h => exact iff_of_false (fun h => by cases h) (by omega)
  · next h => rw [Except.ok.injEq, and_iff_right (Nat.one_le_iff_ne_zero.2 h)]

theorem mapM_checkCount_eq_ok_iff {o o' : Option ℕ} :
    o.mapM (checkCount setting) = .ok o' ↔ (∀ n ∈ o, 1 ≤ n) ∧ o = o' := by
  have hcheck (n m : ℕ) : checkCount setting n = .ok m ↔ 1 ≤ n ∧ n = m := checkCount_eq_ok_iff
  rw [mapM_eq_ok_iff hcheck, Option.map_id']

theorem checkFraction_eq_ok_iff {x : Float} {u : Unit} :
    checkFraction setting x = .ok u ↔ 0.0 < x ∧ x ≤ 1.0 := by
  rw [checkFraction, ← isFraction_iff]
  split
  · next h => exact iff_of_true rfl h
  · next h => exact iff_of_false (fun h => by cases h) h

def whole (round : Float → ℕ) (total : ℕ) : Limit → ℕ
  | count n => n
  | fraction x => round (x * Float.ofNat total)

def Allowed (enough : Float → Prop) : Limit → Prop
  | count n => 1 ≤ n
  | fraction x => (0.0 < x ∧ x ≤ 1.0) ∧ enough x

theorem resolve_eq_ok_iff : l.resolve round setting total = .ok m ↔
    l.Allowed (fun x => 1 ≤ round (x * Float.ofNat total)) ∧ l.whole round total = m := by
  cases l with
  | count n => exact checkCount_eq_ok_iff
  | fraction x =>
      simp only [resolve, bind_eq_ok, checkFraction_eq_ok_iff, exists_const, checkCount_eq_ok_iff,
        Allowed, whole, and_assoc]

theorem allowed_congr {enough enough' : Float → Prop}
    (h : ∀ x, 0.0 < x ∧ x ≤ 1.0 → (enough x ↔ enough' x)) :
    l.Allowed enough ↔ l.Allowed enough' := by
  cases l with
  | count n => exact Iff.rfl
  | fraction x => exact and_congr_right (h x)

theorem Allowed.one_le_whole
    (h : l.Allowed fun x => 1 ≤ round (x * Float.ofNat total)) : 1 ≤ l.whole round total := by
  cases l with
  | count n => exact h
  | fraction x => exact h.2

theorem Allowed.whole_congr {enough : Float → Prop} {round' : Float → ℕ} (h : l.Allowed enough)
    (hround : ∀ x, 0.0 < x ∧ x ≤ 1.0 →
      round (x * Float.ofNat total) = round' (x * Float.ofNat total)) :
    l.whole round total = l.whole round' total := by
  cases l with
  | count n => rfl
  | fraction x => exact hround x h.1

end Limit

namespace Settings

variable {s : Settings} {criterion : Criterion} {examples predicates : ℕ}

def resolved (s : Settings) (criterion : Criterion) (examples predicates : ℕ) :
    ResolvedSettings where
  limits := {
    maxLiterals := s.maxLiterals
    maxPredicates := s.maxPredicates.map (Limit.whole wholeBelow predicates)
    minExamples := s.minExamples.whole wholeAbove examples
    criterion := s.criterion.getD criterion
    strategy := s.strategy
    recursive := s.recursive }
  clauses := s.clauses
  sampleSize := s.sampleSize examples

structure Accepted (s : Settings) (enoughPredicates enoughExamples : Float → Prop) : Prop where
  maxLiterals : ∀ n ∈ s.maxLiterals, 1 ≤ n
  maxPredicates : ∀ l ∈ s.maxPredicates, l.Allowed enoughPredicates
  minExamples : s.minExamples.Allowed enoughExamples
  clauses : 1 ≤ s.clauses
  sampleRatio : 0.0 < s.sampleRatio ∧ s.sampleRatio ≤ 1.0

theorem resolve_eq_ok_iff {r : ResolvedSettings} :
    s.resolve criterion examples predicates = .ok r ↔
      s.Accepted (fun x => 1 ≤ wholeBelow (x * Float.ofNat predicates))
        (fun x => 1 ≤ wholeAbove (x * Float.ofNat examples)) ∧
      r = s.resolved criterion examples predicates := by
  simp only [resolve, bind_eq_ok, Limit.resolve_eq_ok_iff, Limit.checkCount_eq_ok_iff,
    Limit.checkFraction_eq_ok_iff, exists_const, Limit.mapM_checkCount_eq_ok_iff,
    mapM_eq_ok_iff fun _ _ => Limit.resolve_eq_ok_iff]
  constructor
  · rintro ⟨_, ⟨hliterals, rfl⟩, _, ⟨hpredicates, rfl⟩, _, ⟨hexamples, rfl⟩, _, ⟨hclauses, rfl⟩,
      hratio, h⟩
    cases h
    exact ⟨⟨hliterals, hpredicates, hexamples, hclauses, hratio⟩, rfl⟩
  · rintro ⟨h, rfl⟩
    refine ⟨_, ⟨h.maxLiterals, rfl⟩, _, ⟨h.maxPredicates, rfl⟩, _, ⟨h.minExamples, rfl⟩, _,
      ⟨h.clauses, rfl⟩, h.sampleRatio, rfl⟩

theorem eq_resolved {r : ResolvedSettings}
    (h : s.resolve criterion examples predicates = .ok r) :
    r = s.resolved criterion examples predicates :=
  (resolve_eq_ok_iff.1 h).2

theorem Accepted.imp {p p' q q' : Float → Prop} (h : s.Accepted p q)
    (hp : ∀ l : Limit, l.Allowed p → l.Allowed p') (hq : ∀ l : Limit, l.Allowed q → l.Allowed q') :
    s.Accepted p' q' where
  maxLiterals := h.maxLiterals
  maxPredicates := fun l hl => hp l (h.maxPredicates l hl)
  minExamples := hq _ h.minExamples
  clauses := h.clauses
  sampleRatio := h.sampleRatio

section Counted

variable (hn : examples ≤ 2 ^ 53) (hp : predicates ≤ 2 ^ 53)

include hn hp

theorem accepted_iff :
    s.Accepted (fun x => 1 ≤ wholeBelow (x * Float.ofNat predicates))
        (fun x => 1 ≤ wholeAbove (x * Float.ofNat examples)) ↔
      s.Accepted (fun x => 1 ≤ ⌊toRat (x * Float.ofNat predicates)⌋₊) (fun _ => 1 ≤ examples) := by
  have hpredicates (l : Limit) :
      l.Allowed (fun x => 1 ≤ wholeBelow (x * Float.ofNat predicates)) ↔
        l.Allowed (fun x => 1 ≤ ⌊toRat (x * Float.ofNat predicates)⌋₊) :=
    Limit.allowed_congr fun x hx => by rw [(isPart_mul hx hp).wholeBelow_eq hp]
  have hexamples (l : Limit) :
      l.Allowed (fun x => 1 ≤ wholeAbove (x * Float.ofNat examples)) ↔
        l.Allowed (fun _ => 1 ≤ examples) :=
    Limit.allowed_congr fun x hx => by
      rw [(isPart_mul hx hn).wholeAbove_eq hn, one_le_ceil_iff hx hn]
  exact ⟨fun h => h.imp (fun l => (hpredicates l).1) fun l => (hexamples l).1,
    fun h => h.imp (fun l => (hpredicates l).2) fun l => (hexamples l).2⟩

end Counted

end Settings

structure ResolvedSettings.Within (r : ResolvedSettings) (s : Settings)
    (examples predicates : ℕ) : Prop where
  maxPredicates_eq :
    r.limits.maxPredicates = s.maxPredicates.map (Limit.whole (fun y => ⌊toRat y⌋₊) predicates)
  maxPredicates_pos : ∀ m ∈ r.limits.maxPredicates, 1 ≤ m
  maxPredicates_le : ∀ x, s.maxPredicates = some (.fraction x) →
    ∀ m ∈ r.limits.maxPredicates, m ≤ predicates
  minExamples_eq : r.limits.minExamples = s.minExamples.whole (fun y => ⌈toRat y⌉₊) examples
  minExamples_pos : 1 ≤ r.limits.minExamples
  minExamples_le : ∀ x, s.minExamples = .fraction x → r.limits.minExamples ≤ examples
  sampleSize_eq : r.sampleSize = max 1 ⌈toRat (s.sampleRatio * Float.ofNat examples)⌉₊
  sampleSize_pos : 1 ≤ r.sampleSize
  sampleSize_le : r.sampleSize ≤ max examples 1
  sampleSize_of_all : s.sampleRatio = 1.0 → 1 ≤ examples → r.sampleSize = examples

namespace Settings

variable {s : Settings} {criterion : Criterion} {examples predicates : ℕ}

theorem within_resolved (hn : examples ≤ 2 ^ 53) (hp : predicates ≤ 2 ^ 53)
    (h : s.Accepted (fun x => 1 ≤ wholeBelow (x * Float.ofNat predicates))
      (fun x => 1 ≤ wholeAbove (x * Float.ofNat examples))) :
    (s.resolved criterion examples predicates).Within s examples predicates := by
  have hratio := isPart_mul h.sampleRatio hn
  have hsize : s.sampleSize examples =
      max 1 ⌈toRat (s.sampleRatio * Float.ofNat examples)⌉₊ := by
    have hle := hratio.ceil_le
    rw [sampleSize, hratio.wholeAbove_eq hn]
    omega
  have hsize_le : s.sampleSize examples ≤ max examples 1 := Nat.min_le_right _ _
  constructor
  case maxPredicates_eq =>
    refine Option.map_congr fun l hl => ?_
    exact (h.maxPredicates l hl).whole_congr fun x hx => (isPart_mul hx hp).wholeBelow_eq hp
  case maxPredicates_pos =>
    intro m hm
    obtain ⟨l, hl, rfl⟩ := Option.map_eq_some_iff.1 hm
    exact (h.maxPredicates l hl).one_le_whole
  case maxPredicates_le =>
    intro x hx m hm
    have hpart := isPart_mul (h.maxPredicates _ hx).1 hp
    rw [resolved, hx] at hm
    cases hm
    exact (hpart.wholeBelow_eq hp).trans_le hpart.floor_le
  case minExamples_eq =>
    exact h.minExamples.whole_congr fun x hx => (isPart_mul hx hn).wholeAbove_eq hn
  case minExamples_pos => exact h.minExamples.one_le_whole
  case minExamples_le =>
    intro x hx
    have hpart := isPart_mul (hx ▸ h.minExamples : Limit.Allowed _ (.fraction x)).1 hn
    rw [resolved, hx]
    exact (hpart.wholeAbove_eq hn).trans_le hpart.ceil_le
  case sampleSize_eq => exact hsize
  case sampleSize_pos => exact (Nat.le_max_left _ _).trans_eq hsize.symm
  case sampleSize_le => exact hsize_le
  case sampleSize_of_all =>
    intro hone hpos
    refine hsize.trans ?_
    rw [hone, toRat_whole_part hn, Nat.ceil_natCast, Nat.max_eq_right hpos]

theorem resolve_iff_accepted (s : Settings) (criterion : Criterion) (hn : examples ≤ 2 ^ 53)
    (hp : predicates ≤ 2 ^ 53) :
    ((∃ r, s.resolve criterion examples predicates = .ok r) ↔
      s.Accepted (fun x => 1 ≤ ⌊toRat (x * Float.ofNat predicates)⌋₊) (fun _ => 1 ≤ examples)) ∧
    (∀ x, x.isNaN = true →
      s.maxPredicates = some (.fraction x) ∨ s.minExamples = .fraction x ∨ s.sampleRatio = x →
        ∀ r, s.resolve criterion examples predicates ≠ .ok r) ∧
    ∀ r, s.resolve criterion examples predicates = .ok r → r.Within s examples predicates := by
  refine ⟨?_, fun x hx hset r hr => ?_, fun r hr => ?_⟩
  · simp only [resolve_eq_ok_iff, exists_and_left, exists_eq, and_true]
    exact accepted_iff hn hp
  · have h := (resolve_eq_ok_iff.1 hr).1
    have hnumber : 0.0 < x ∧ x ≤ 1.0 := by
      rcases hset with hset | hset | rfl
      · exact (h.maxPredicates _ hset).1
      · exact (hset ▸ h.minExamples : Limit.Allowed _ (.fraction x)).1
      · exact h.sampleRatio
    cases hx.symm.trans (FloatOrder.isNaN_of_le hnumber.2).1
  · obtain ⟨h, rfl⟩ := resolve_eq_ok_iff.1 hr
    exact within_resolved hn hp h

theorem resolve_iff_accepted_rounding :
    let s : Settings :=
      { maxPredicates := some (.fraction 0.5), minExamples := .fraction 0.1, sampleRatio := 0.3 }
    26 ≤ 2 ^ 53 ∧ 5 ≤ 2 ^ 53 ∧ ∃ r, s.resolve .mse 26 5 = .ok r ∧
      (r.limits.maxPredicates, r.limits.minExamples, r.sampleSize) = (some 2, 3, 8) ∧
      s.Accepted (fun x => 1 ≤ ⌊toRat (x * Float.ofNat 5)⌋₊) (fun _ => 1 ≤ 26) ∧
      r.Within s 26 5 := by
  intro s
  have hvalues : (s.resolve .mse 26 5).toOption.map (fun r =>
      (r.limits.maxPredicates, r.limits.minExamples, r.sampleSize)) = some (some 2, 3, 8) := by
    decide +kernel
  have hn : 26 ≤ 2 ^ 53 := by decide
  have hp : 5 ≤ 2 ^ 53 := by decide
  cases hr : s.resolve .mse 26 5 with
  | error e =>
      rw [hr] at hvalues
      cases hvalues
  | ok r =>
      rw [hr] at hvalues
      obtain ⟨hiff, -, hwithin⟩ := resolve_iff_accepted s .mse hn hp
      exact ⟨hn, hp, r, rfl, Option.some.inj hvalues, hiff.1 ⟨r, hr⟩, hwithin r hr⟩

end Settings

end RuleInduction
