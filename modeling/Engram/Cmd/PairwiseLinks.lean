import Engram.Library.TriangularIndex
import Mathlib.Data.Int.ConditionallyCompleteOrder
import Mathlib.Tactic.NormNum

/-!
The dedicated links of a testnet: one for every unordered pair of validators, and the
addresses the two ends have on it. Indices are 64-bit signed words.
-/

set_option autoImplicit false
set_option relaxedAutoImplicit false

namespace Engram.Cmd

open Engram.Library.TriangularIndex

def pairwiseLinkIndex (i j n : Int64) : Int64 :=
  let (i, j) := if i > j then (j, i) else (i, j)
  i * n - i * (i + 1) / 2 + (j - i - 1)

/-- The two last octets of an address under `172.40`. -/
structure LinkAddress where
  link : Int64
  host : Int64
  deriving DecidableEq

def LinkAddress.text (address : LinkAddress) : String :=
  "172.40." ++ toString address.link ++ "." ++ toString address.host

def pairwiseLinkPeerIP (self peer n : Int64) : LinkAddress :=
  let link := pairwiseLinkIndex self peer n
  if peer < self then ⟨link, 2⟩ else ⟨link, 3⟩

def link (n : ℕ) (e : ℕ × ℕ) : Int64 :=
  pairwiseLinkIndex (Int64.ofNat e.1) (Int64.ofNat e.2) (Int64.ofNat n)

def peerIP (n self peer : ℕ) : LinkAddress :=
  pairwiseLinkPeerIP (Int64.ofNat self) (Int64.ofNat peer) (Int64.ofNat n)

private theorem ofNat_lt_ofNat {a b : ℕ} (ha : a < 2 ^ 63) (hb : b < 2 ^ 63) :
    Int64.ofNat a < Int64.ofNat b ↔ a < b := by
  rw [Int64.lt_iff_toInt_lt, Int64.toInt_ofNat_of_lt ha, Int64.toInt_ofNat_of_lt hb]
  omega

private theorem pairwiseLinkIndex_comm (i j n : Int64) :
    pairwiseLinkIndex i j n = pairwiseLinkIndex j i n := by
  unfold pairwiseLinkIndex
  by_cases below : i < j
  · simp [below, Int64.lt_asymm below]
  · by_cases above : j < i
    · simp [above, Int64.lt_asymm above]
    · have same : i = j := Int64.le_antisymm (Int64.not_lt.mp above) (Int64.not_lt.mp below)
      rw [same]

private theorem ofInt_sub_size (x : ℤ) : Int64.ofInt (x - 2 ^ 64) = Int64.ofInt x := by
  rw [Int64.ofInt_sub]
  have zero : Int64.ofInt (2 ^ 64) = 0 := by decide
  rw [zero, Int64.sub_zero]

private theorem toInt_half_turn_le {x : ℤ} (nonneg : 0 ≤ (Int64.ofInt x).toInt) :
    (Int64.ofInt (x + 1 + 2 ^ 63)).toInt ≤ (Int64.ofInt x).toInt := by
  have bound := (Int64.ofInt (x + 1 + 2 ^ 63)).toInt_lt
  have reduced := Int.bmod_add_bdiv x (2 ^ 64)
  have reduced' := Int.bmod_add_bdiv (x + 1 + 2 ^ 63) (2 ^ 64)
  have here : (Int64.ofInt x).toInt = x.bmod (2 ^ 64) := Int64.toInt_ofInt
  have there : (Int64.ofInt (x + 1 + 2 ^ 63)).toInt = (x + 1 + 2 ^ 63).bmod (2 ^ 64) :=
    Int64.toInt_ofInt
  omega

private theorem ofInt_div_two_of_fits {p : ℤ} (fits : -2 ^ 63 ≤ p) (fits' : p < 2 ^ 63) :
    Int64.ofInt p / 2 = Int64.ofInt (p.tdiv 2) := by
  have two : Int64.ofInt 2 = 2 := rfl
  have low : Int64.minValue.toInt = -2 ^ 63 := by decide
  have high : Int64.maxValue.toInt = 2 ^ 63 - 1 := by decide
  have lower : Int64.minValue.toInt ≤ p := by omega
  have upper : p ≤ Int64.maxValue.toInt := by omega
  rw [← two, Int64.ofInt_tdiv lower upper (by omega) (by omega)]

variable {n : ℕ} {e : ℕ × ℕ}

private theorem link_eq (fits : n < 2 ^ 63) (inside : e ∈ pairs n) :
    link n e = Int64.ofInt (e.1 * n) - Int64.ofInt (e.1 * (e.1 + 1)) / 2 +
      Int64.ofInt (e.2 - e.1 - 1) := by
  have ordered : e.1 < e.2 := inside.1
  have bounded : e.2 < n := inside.2
  have kept : ¬ Int64.ofNat e.1 > Int64.ofNat e.2 := by
    rw [gt_iff_lt, ofNat_lt_ofNat (by omega) (by omega)]
    omega
  simp only [link, pairwiseLinkIndex, kept, if_false, Int64.ofInt_add, Int64.ofInt_sub,
    Int64.ofInt_mul, Int64.ofInt_eq_ofNat]
  rfl

private theorem link_eq_of_small (fits : n < 2 ^ 63) (inside : e ∈ pairs n)
    (small : e.1 * (e.1 + 1) < 2 ^ 63) : link n e = Int64.ofInt (index n e) := by
  have ordered : e.1 < e.2 := inside.1
  have bounded : e.2 < n := inside.2
  have start := two_mul_rowStart (n := n) (i := e.1) (by omega)
  have product : ((e.1 * (e.1 + 1) : ℕ) : ℤ) = e.1 * (e.1 + 1) := by push_cast; ring
  have row : ((e.1 * n : ℕ) : ℤ) = e.1 * n := by push_cast; ring
  rw [link_eq fits inside, ← product, ← row, ofInt_div_two_of_fits (by omega) (by omega),
    ← Int64.ofInt_sub, ← Int64.ofInt_add]
  congr 1
  rw [Int.tdiv_eq_ediv_of_nonneg (by omega), index]
  omega

private theorem link_eq_of_large (fits : n < 2 ^ 63) (inside : e ∈ pairs n)
    (large : 2 ^ 63 ≤ e.1 * (e.1 + 1)) (word : e.1 * (e.1 + 1) < 2 ^ 64) :
    link n e = Int64.ofInt (index n e + 2 ^ 63) := by
  have ordered : e.1 < e.2 := inside.1
  have bounded : e.2 < n := inside.2
  have start := two_mul_rowStart (n := n) (i := e.1) (by omega)
  have product : ((e.1 * (e.1 + 1) : ℕ) : ℤ) = e.1 * (e.1 + 1) := by push_cast; ring
  have row : ((e.1 * n : ℕ) : ℤ) = e.1 * n := by push_cast; ring
  have half : ((e.1 * (e.1 + 1) : ℕ) - 2 ^ 64 : ℤ) =
      2 * (e.1 * n - rowStart n e.1 - 2 ^ 63) := by
    rw [← row]
    omega
  rw [link_eq fits inside, ← product, ← ofInt_sub_size (e.1 * (e.1 + 1) : ℕ),
    ofInt_div_two_of_fits (by omega) (by omega), half, Int.mul_tdiv_cancel_left _ (by decide),
    ← Int64.ofInt_sub, ← Int64.ofInt_add]
  congr 1
  rw [index]
  omega

/-- An unordered pair of validators given either way round. -/
def sorted (self peer : ℕ) : ℕ × ℕ := (min self peer, max self peer)

private theorem sorted_mem_pairs {self peer : ℕ} (hself : self < n) (hpeer : peer < n)
    (distinct : self ≠ peer) : sorted self peer ∈ pairs n := by
  change min self peer < max self peer ∧ max self peer < n
  omega

private theorem peerIP_link (self peer : ℕ) :
    (peerIP n self peer).link = link n (sorted self peer) := by
  have either : (peerIP n self peer).link = link n (self, peer) := by
    unfold peerIP pairwiseLinkPeerIP link
    split <;> rfl
  rw [either, sorted]
  rcases Nat.le_total self peer with le | le
  · rw [Nat.min_eq_left le, Nat.max_eq_right le]
  · rw [Nat.min_eq_right le, Nat.max_eq_left le]
    exact pairwiseLinkIndex_comm _ _ _

private theorem peerIP_host (fits : n < 2 ^ 63) {self peer : ℕ} (hself : self < n)
    (hpeer : peer < n) : (peerIP n self peer).host = if peer < self then 2 else 3 := by
  have same := ofNat_lt_ofNat (hpeer.trans fits) (hself.trans fits)
  unfold peerIP pairwiseLinkPeerIP
  by_cases lower : peer < self
  · rw [if_pos lower, if_pos (same.mpr lower)]
  · rw [if_neg lower, if_neg (mt same.mp lower)]

private theorem LinkAddress.text_ne {a b : LinkAddress} (link : a.link = b.link)
    (host : toString a.host ≠ toString b.host) : a.text ≠ b.text := by
  intro same
  simp only [LinkAddress.text, link] at same
  exact host (String.append_right_inj _ |>.mp same)

structure PairwiseNumbering (n : ℕ) : Prop where
  symmetric : ∀ i j, link n (i, j) = link n (j, i)
  bijective : Set.BijOn (fun e => (link n e).toInt) (pairs n)
    (Set.Ico 0 ((n * (n - 1) / 2 : ℕ) : ℤ))
  rowMajor : ∀ e ∈ pairs n, ∀ e' ∈ pairs n, Before e e' → (link n e).toInt < (link n e').toInt
  octet : n * (n - 1) / 2 ≤ 256 → ∀ self < n, ∀ peer < n, self ≠ peer →
    0 ≤ (peerIP n self peer).link.toInt ∧ (peerIP n self peer).link.toInt < 256
  links : n * (n - 1) / 2 ≤ 256 → ∀ self < n, ∀ peer < n, self ≠ peer → ∀ self' < n,
    ∀ peer' < n, self' ≠ peer' → (peerIP n self peer).link = (peerIP n self' peer').link →
    sorted self peer = sorted self' peer'
  ends : n * (n - 1) / 2 ≤ 256 → ∀ self < n, ∀ peer < n, self ≠ peer →
    (peerIP n self peer).link = (peerIP n peer self).link ∧
      (peerIP n self peer).text ≠ (peerIP n peer self).text
  peers : n * (n - 1) / 2 ≤ 256 → ∀ self < n,
    Set.InjOn (fun peer => (peerIP n self peer).link) {peer | peer < n ∧ peer ≠ self}

private theorem products_fit_iff : (n - 1) * (n - 2) < 2 ^ 63 ↔ n ≤ 3037000501 := by
  constructor
  · intro fit
    by_contra many
    have product : 3037000501 * 3037000500 ≤ (n - 1) * (n - 2) :=
      Nat.mul_le_mul (by omega) (by omega)
    omega
  · intro few
    have product : (n - 1) * (n - 2) ≤ 3037000500 * 3037000499 :=
      Nat.mul_le_mul (by omega) (by omega)
    omega

private theorem toInt_link (few : n ≤ 3037000501) (inside : e ∈ pairs n) :
    (link n e).toInt = index n e := by
  have ordered : e.1 < e.2 := inside.1
  have bounded : e.2 < n := inside.2
  have product : e.1 * (e.1 + 1) ≤ 3037000499 * 3037000500 :=
    Nat.mul_le_mul (by omega) (by omega)
  have total : n * (n - 1) ≤ 3037000501 * 3037000500 := Nat.mul_le_mul few (by omega)
  have last := index_lt inside
  rw [link_eq_of_small (by omega) inside (by omega)]
  exact Int64.toInt_ofInt_of_le (by omega) (by omega)

private theorem link_bijOn (few : n ≤ 3037000501) : Set.BijOn (fun e => (link n e).toInt) (pairs n)
    (Set.Ico 0 ((n * (n - 1) / 2 : ℕ) : ℤ)) := by
  obtain ⟨maps, injective, onto⟩ := index_bijOn (n := n)
  refine ⟨?_, ?_, ?_⟩
  · intro e inside
    change 0 ≤ (link n e).toInt ∧ (link n e).toInt < _
    rw [toInt_link few inside]
    exact ⟨Int.natCast_nonneg _, Int.ofNat_lt.mpr (maps inside)⟩
  · intro e inside e' inside' same
    change (link n e).toInt = (link n e').toInt at same
    rw [toInt_link few inside, toInt_link few inside'] at same
    exact injective inside inside' (Int.ofNat_inj.mp same)
  · rintro k ⟨nonneg, below⟩
    obtain ⟨e, inside, numbered⟩ := onto (show k.toNat < n * (n - 1) / 2 by omega)
    refine ⟨e, inside, ?_⟩
    change (link n e).toInt = k
    rw [toInt_link few inside, numbered]
    omega

private theorem sorted_eq_of_link (few : n ≤ 3037000501) {self peer self' peer' : ℕ}
    (hself : self < n) (hpeer : peer < n) (distinct : self ≠ peer) (hself' : self' < n)
    (hpeer' : peer' < n) (distinct' : self' ≠ peer')
    (same : (peerIP n self peer).link = (peerIP n self' peer').link) :
    sorted self peer = sorted self' peer' := by
  have inside := sorted_mem_pairs hself hpeer distinct
  have inside' := sorted_mem_pairs hself' hpeer' distinct'
  rw [peerIP_link, peerIP_link, ← Int64.toInt_inj, toInt_link few inside,
    toInt_link few inside'] at same
  exact index_injOn inside inside' (Int.ofNat_inj.mp same)

private theorem ends_differ (fits : n < 2 ^ 63) {self peer : ℕ} (hself : self < n)
    (hpeer : peer < n)
    (distinct : self ≠ peer) : (peerIP n self peer).link = (peerIP n peer self).link ∧
      (peerIP n self peer).text ≠ (peerIP n peer self).text := by
  have same : (peerIP n self peer).link = (peerIP n peer self).link := by
    rw [peerIP_link, peerIP_link, sorted, sorted, min_comm, max_comm]
  refine ⟨same, LinkAddress.text_ne same ?_⟩
  rw [peerIP_host fits hself hpeer, peerIP_host fits hpeer hself]
  rcases Nat.lt_or_gt_of_ne distinct with lower | lower
  · rw [if_neg (by omega), if_pos lower]
    decide
  · rw [if_pos lower, if_neg (by omega)]
    decide

theorem numbering_of_few (few : n ≤ 3037000501) : PairwiseNumbering n := by
  refine ⟨fun i j => pairwiseLinkIndex_comm _ _ _, link_bijOn few, ?_, ?_, ?_, ?_, ?_⟩
  · intro e inside e' inside' before
    rw [toInt_link few inside, toInt_link few inside']
    exact Int.ofNat_lt.mpr (index_lt_index inside before)
  · intro octets self hself peer hpeer distinct
    have inside := sorted_mem_pairs hself hpeer distinct
    have bound := index_lt inside
    rw [peerIP_link, toInt_link few inside]
    omega
  · intro octets self hself peer hpeer distinct self' hself' peer' hpeer' distinct' same
    exact sorted_eq_of_link few hself hpeer distinct hself' hpeer' distinct' same
  · intro octets self hself peer hpeer distinct
    exact ends_differ (by omega) hself hpeer distinct
  · intro octets self hself peer ⟨hpeer, distinct⟩ peer' ⟨hpeer', distinct'⟩ same
    have equal := sorted_eq_of_link few hself hpeer distinct.symm hself hpeer' distinct'.symm same
    simp only [sorted, Prod.mk.injEq] at equal
    omega

private theorem few_of_numbering (fits : n < 2 ^ 63) (numbering : PairwiseNumbering n) :
    n ≤ 3037000501 := by
  by_contra many
  have above : (3037000499, n - 1) ∈ pairs n := by
    change 3037000499 < n - 1 ∧ n - 1 < n
    omega
  have first : (3037000500, 3037000501) ∈ pairs n := by
    change 3037000500 < 3037000501 ∧ 3037000501 < n
    omega
  have next : index n (3037000500, 3037000501) = index n (3037000499, n - 1) + 1 :=
    index_next_row (by omega)
  have before := numbering.rowMajor _ above _ first (.inl (Nat.lt_succ_self 3037000499))
  have nonneg := (numbering.bijective.mapsTo above).1
  change 0 ≤ (link n (3037000499, n - 1)).toInt at nonneg
  have small : (3037000499, n - 1).1 * ((3037000499, n - 1).1 + 1) < 2 ^ 63 := by
    change 3037000499 * (3037000499 + 1) < 2 ^ 63
    omega
  have last := link_eq_of_small fits above small
  have turned := link_eq_of_large fits first (by decide) (by decide)
  rw [next, Int.natCast_succ] at turned
  rw [last] at before nonneg
  rw [turned] at before
  exact absurd (toInt_half_turn_le nonneg) (by omega)

/-- The numbering is right exactly while the products of all rows fit a signed word. -/
theorem pairwiseNumbering_iff {n : ℕ} (fits : n < 2 ^ 63) :
    PairwiseNumbering n ↔ (n - 1) * (n - 2) < 2 ^ 63 := by
  rw [products_fit_iff]
  exact ⟨few_of_numbering fits, numbering_of_few⟩

theorem pairwiseNumbering_four : PairwiseNumbering 4 :=
  (pairwiseNumbering_iff (by decide)).mpr (by decide)

/-- With `2 ^ 32` validators the number of a link in row 3037000500 is negative. -/
theorem link_number_negative_at_large_count :
    (link 4294967296 (3037000500, 3037000501)).toInt < 0 ∧ ¬ PairwiseNumbering 4294967296 := by
  refine ⟨by decide, ?_⟩
  intro numbering
  exact absurd (few_of_numbering (by decide) numbering) (by decide)

end Engram.Cmd
