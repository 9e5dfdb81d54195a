import Nmos6502.Proofs.Multibyte
import Nmos6502.Registers

/-!
# Sums and differences of several bytes

A number that does not fit a byte is added byte by byte, from the lowest up, and each sum takes
in the carry that the one before left.  `Alu.chain` does so for sums and differences alike.
Its step is `toNat_value_add_carry`: a sum is its byte and 256 times its carry.  By induction
the bytes of a chain and its last carry are the sum of the numbers, and the last overflow
belongs to the numbers in two's complement, whatever the overflows on the way there were.

A difference is the sum with the complement, byte by byte, and so nothing has to be proved of
it by induction.  A comparison of the lowest bytes leaves the carry of their difference, but
*not* its overflow, which is why it can only stand in for a byte that is not the last.
-/

namespace Nmos6502

namespace Alu

/-- What a chain leaves: a byte for each step, and the flags of the last one. -/
structure Chained where
  bytes : List Byte
  carry : Bool
  overflow : Bool

/-- Combines two numbers byte by byte, from the lowest up, each time with the carry that was
left before. -/
def chain (op : Byte → Byte → Bool → Sum) (carry overflow : Bool) :
    List Byte → List Byte → Chained
  | a :: as, b :: bs =>
      let sum := op a b carry
      let rest := chain op sum.carry sum.overflow as bs
      { rest with bytes := sum.value :: rest.bytes }
  | _, _ => { bytes := [], carry, overflow }

theorem length_bytes_chain (op : Byte → Byte → Bool → Sum) (carry overflow : Bool)
    {as bs : List Byte} (hlength : bs.length = as.length) :
    (chain op carry overflow as bs).bytes.length = as.length := by
  induction as generalizing bs carry overflow with
  | nil => rfl
  | cons a as ih =>
      cases bs with
      | nil => cases hlength
      | cons b bs => exact congrArg Nat.succ (ih _ _ (Nat.succ.inj hlength))

/-- The overflow that was left before the chain does not matter for it. -/
theorem chain_overflow_irrelevant (op : Byte → Byte → Bool → Sum) (carry v w : Bool)
    {as bs : List Byte} (hlength : bs.length = as.length) (has : as ≠ []) :
    chain op carry v as bs = chain op carry w as bs := by
  cases as with
  | nil => exact absurd rfl has
  | cons a as =>
      cases bs with
      | nil => cases hlength
      | cons b bs => rfl

/-! ## Sums -/

/-- A sum is its byte and 256 times its carry. -/
theorem toNat_value_add_carry (a b : Byte) (carry : Bool) :
    (add a b carry).value.toNat + 256 * (add a b carry).carry.toNat =
      a.toNat + b.toNat + carry.toNat := by
  have ha := a.toNat_lt
  have hb := b.toNat_lt
  have hcarry := Bool.toNat_le carry
  rw [toNat_value_add, carry_add]
  rcases Nat.lt_or_ge 255 (a.toNat + b.toNat + carry.toNat) with hlarge | hsmall
  · rw [decide_eq_true hlarge, Bool.toNat_true]
    omega
  · rw [decide_eq_false (Nat.not_lt.2 hsmall), Bool.toNat_false]
    omega

/-- The bytes of a chain and its last carry are the sum of the numbers. -/
theorem littleEndian_chain_add (carry overflow : Bool) {as bs : List Byte}
    (hlength : bs.length = as.length) :
    littleEndian (chain add carry overflow as bs).bytes +
        256 ^ as.length * (chain add carry overflow as bs).carry.toNat =
      littleEndian as + littleEndian bs + carry.toNat := by
  induction as generalizing bs carry overflow with
  | nil =>
      rw [List.eq_nil_of_length_eq_zero hlength]
      simp [chain, littleEndian]
  | cons a as ih =>
      cases bs with
      | nil => cases hlength
      | cons b bs =>
          have hlow := toNat_value_add_carry a b carry
          have hrest := ih (add a b carry).carry (add a b carry).overflow (Nat.succ.inj hlength)
          rw [chain, List.length_cons, Nat.pow_succ, Nat.mul_right_comm]
          simp only [littleEndian]
          omega

/-- The last overflow of a chain says that the signed sum does not fit. -/
theorem overflow_chain_add (carry overflow : Bool) (a b : Byte) {as bs : List Byte}
    (hlength : bs.length = as.length) :
    (chain add carry overflow (a :: as) (b :: bs)).overflow = true ↔
      LeavesSigned (as.length + 1)
        (twosComplement (as.length + 1) (littleEndian (a :: as)) +
          twosComplement (as.length + 1) (littleEndian (b :: bs)) + carry.toNat) := by
  -- Only the top bytes have signs: below them the carry takes along what the sum needs.
  induction as generalizing a b bs carry overflow with
  | nil =>
      rw [List.eq_nil_of_length_eq_zero hlength]
      change (add a b carry).overflow = true ↔ LeavesSigned 1
        (twosComplement 1 (a.toNat + 256 * 0) + twosComplement 1 (b.toNat + 256 * 0) + _)
      rw [overflow_add, leavesSigned_one, twosComplement_one, twosComplement_one]
      exact Iff.rfl
  | cons a' as ih =>
      cases bs with
      | nil => cases hlength
      | cons b' bs =>
          have hlow := toNat_value_add_carry a b carry
          have hbyte := (add a b carry).value.toNat_lt
          have hrest := ih (add a b carry).carry (add a b carry).overflow a' b'
            (Nat.succ.inj hlength)
          have ha : twosComplement (as.length + 2) (littleEndian (a :: a' :: as)) = _ :=
            twosComplement_cons as.length a.toNat_lt (littleEndian (a' :: as))
          have hb : twosComplement (as.length + 2) (littleEndian (b :: b' :: bs)) = _ :=
            twosComplement_cons as.length b.toNat_lt (littleEndian (b' :: bs))
          have hsum : ∀ x y : Int,
              a.toNat + 256 * x + (b.toNat + 256 * y) + carry.toNat =
                (add a b carry).value.toNat +
                  256 * (x + y + (add a b carry).carry.toNat) := by
            intro x y
            omega
          rw [List.length_cons, ha, hb, hsum, leavesSigned_cons as.length hbyte]
          exact hrest

/-! ## Differences -/

/-- A difference is the sum with the complement of what is taken away. -/
theorem chain_subtract (carry overflow : Bool) (as bs : List Byte) :
    chain subtract carry overflow as bs = chain add carry overflow as (bs.map (~~~·)) := by
  induction as generalizing bs carry overflow with
  | nil => rfl
  | cons a as ih =>
      cases bs with
      | nil => rfl
      | cons b bs =>
          exact congrArg
            (fun rest : Chained => { rest with bytes := (subtract a b carry).value :: rest.bytes })
            (ih _ _ bs)

/-! ## Chains in integers -/

/-- The chain has left the lowest `n` bytes of an integer, its last carry says whether `carry`,
and its last overflow says whether the signed integer does not fit `n` bytes. -/
structure Chained.Computes (result : Chained) (n : Nat) (total signedTotal : Int)
    (carry : Prop) : Prop where
  length : result.bytes.length = n
  bytes : (littleEndian result.bytes : Int) = total % (256 ^ n : Nat)
  carry : result.carry = true ↔ carry
  overflow : result.overflow = true ↔ LeavesSigned n signedTotal

theorem eq_emod_of_eq_add_mul {r n q total : Int} (h : total = r + n * q) (hr : 0 ≤ r)
    (hn : r < n) : r = total % n := by
  rw [h, Int.add_mul_emod_self_left, Int.emod_eq_of_lt hr hn]

section Computes

variable (carry overflow : Bool) {as bs : List Byte}

theorem computes_chain_add (hne : as ≠ []) (hlength : bs.length = as.length) :
    (chain add carry overflow as bs).Computes as.length
      (littleEndian as + littleEndian bs + carry.toNat)
      (twosComplement as.length (littleEndian as) + twosComplement as.length (littleEndian bs) +
        carry.toNat)
      (256 ^ as.length ≤ littleEndian as + littleEndian bs + carry.toNat) := by
  have hbytes := length_bytes_chain add carry overflow hlength
  have hvalue := littleEndian_chain_add carry overflow hlength
  have hbound := littleEndian_lt (chain add carry overflow as bs).bytes
  rw [hbytes] at hbound
  obtain ⟨hmod, hcarry⟩ := eq_mod_of_add_carry hvalue hbound
  constructor
  case length => exact hbytes
  case bytes => exact_mod_cast hmod
  case carry => exact hcarry
  case overflow =>
    cases as with
    | nil => exact absurd rfl hne
    | cons a as =>
        cases bs with
        | nil => cases hlength
        | cons b bs => exact overflow_chain_add carry overflow a b (Nat.succ.inj hlength)

theorem computes_chain_subtract (hne : as ≠ []) (hlength : bs.length = as.length) :
    (chain subtract carry overflow as bs).Computes as.length
      (littleEndian as - littleEndian bs - (1 - carry.toNat))
      (twosComplement as.length (littleEndian as) - twosComplement as.length (littleEndian bs) -
        (1 - carry.toNat))
      (littleEndian bs + (1 - carry.toNat) ≤ littleEndian as) := by
  have hmirror := littleEndian_complement bs
  have hcarryBound := Bool.toNat_le carry
  have hlengthComplement : (bs.map (~~~·)).length = as.length := by
    rw [List.length_map, hlength]
  rw [hlength] at hmirror
  have hsigned : twosComplement as.length (littleEndian (bs.map (~~~·))) =
      -1 - twosComplement as.length (littleEndian bs) := by
    cases as with
    | nil => exact absurd rfl hne
    | cons a as => exact twosComplement_complement as.length hmirror
  have hsum := computes_chain_add carry overflow hne hlengthComplement
  rw [← chain_subtract] at hsum
  constructor
  case length => exact hsum.length
  case bytes =>
    have hwrapped : (littleEndian as + littleEndian (bs.map (~~~·)) + carry.toNat : Int) =
        littleEndian as - littleEndian bs - (1 - carry.toNat) + (256 ^ as.length : Nat) := by
      omega
    rw [hsum.bytes, hwrapped, Int.add_emod_right]
  case carry =>
    rw [hsum.carry]
    omega
  case overflow =>
    have hwrapped : twosComplement as.length (littleEndian as) +
        twosComplement as.length (littleEndian (bs.map (~~~·))) + carry.toNat =
        twosComplement as.length (littleEndian as) - twosComplement as.length (littleEndian bs) -
          (1 - carry.toNat) := by
      omega
    rw [hsum.overflow, hwrapped]

end Computes

/-! ## What differences are good for -/

/-- Taking away what was added gives back what it was added to. -/
theorem subtract_add_cancel (v w : Bool) {as bs : List Byte} (hne : as ≠ [])
    (hlength : bs.length = as.length) :
    (chain subtract true w (chain add false v as bs).bytes bs).bytes = as := by
  have hsum := computes_chain_add false v hne hlength
  have hsumNe : (chain add false v as bs).bytes ≠ [] := by
    intro hnil
    have hlen := hsum.length
    rw [hnil] at hlen
    exact hne (List.eq_nil_of_length_eq_zero hlen.symm)
  have hdifference := computes_chain_subtract true w hsumNe (hlength.trans hsum.length.symm)
  rw [hsum.length] at hdifference
  have hvalue := littleEndian_chain_add false v hlength
  have hbound := littleEndian_lt as
  apply littleEndian_injective hdifference.length
  apply Int.ofNat_inj.1
  rw [hdifference.bytes]
  refine (eq_emod_of_eq_add_mul (q := -(chain add false v as bs).carry.toNat) ?_ ?_ ?_).symm
  · rw [Bool.toNat_true, Int.mul_neg]
    rw [Bool.toNat_false, Nat.add_zero] at hvalue
    have hvalueInt : (littleEndian (chain add false v as bs).bytes : Int) +
        (256 ^ as.length : Nat) * (chain add false v as bs).carry.toNat =
        littleEndian as + littleEndian bs := by exact_mod_cast hvalue
    omega
  · omega
  · exact_mod_cast hbound

/-- The top bit of a wrapped difference says whether it is negative, unless it overflowed. -/
theorem top_xor_overflow_iff {n A B R : Nat} {overflow : Bool} (hA : A < 256 ^ (n + 1))
    (hB : B < 256 ^ (n + 1)) (hR : (R : Int) = ((A : Int) - B) % (256 ^ (n + 1) : Nat))
    (hoverflow : overflow = true ↔
      LeavesSigned (n + 1) (twosComplement (n + 1) A - twosComplement (n + 1) B)) :
    (R.testBit (8 * (n + 1) - 1) ^^ overflow) = true ↔
      twosComplement (n + 1) A < twosComplement (n + 1) B := by
  have hdouble := two_mul_signBound n
  -- The difference of two numbers wraps at most once.
  have hwrapped : (R : Int) = A - B ∨ (R : Int) = A - B + (256 ^ (n + 1) : Nat) := by
    rcases Nat.lt_or_ge A B with hlt | hle
    · right
      rw [hR, ← Int.add_emod_right, Int.emod_eq_of_lt (by omega) (by omega)]
    · left
      rw [hR, Int.emod_eq_of_lt (by omega) (by omega)]
  have hlt : R < 256 ^ (n + 1) := by
    have hpositive : (0 : Int) < (256 ^ (n + 1) : Nat) := by omega
    have hmod := Int.emod_lt_of_pos ((A : Int) - B) hpositive
    omega
  have hsignA := twosComplement_cases (n + 1) A
  have hsignB := twosComplement_cases (n + 1) B
  rw [LeavesSigned] at hoverflow
  rw [testBit_top hlt]
  cases overflow with
  | true =>
      have hleaves := hoverflow.1 rfl
      rw [Bool.xor_true, Bool.not_eq_true', decide_eq_false_iff_not]
      omega
  | false =>
      have hfits := mt hoverflow.2 Bool.false_ne_true
      rw [Bool.xor_false, decide_eq_true_iff]
      omega

/-- After a difference without borrow, the sign of the result, put right by the overflow, tells
which signed number is smaller. -/
theorem signed_lt_iff_chain_subtract (v : Bool) {as bs : List Byte} (hne : as ≠ [])
    (hlength : bs.length = as.length) :
    ((littleEndian (chain subtract true v as bs).bytes).testBit (8 * as.length - 1) ^^
        (chain subtract true v as bs).overflow) = true ↔
      twosComplement as.length (littleEndian as) < twosComplement as.length (littleEndian bs) := by
  have hdifference := computes_chain_subtract true v hne hlength
  have ha := littleEndian_lt as
  have hb := littleEndian_lt bs
  have hr := littleEndian_lt (chain subtract true v as bs).bytes
  rw [hlength] at hb
  rw [hdifference.length] at hr
  obtain ⟨n, hn⟩ : ∃ n, as.length = n + 1 :=
    Nat.exists_eq_succ_of_ne_zero (fun h => hne (List.eq_nil_of_length_eq_zero h))
  rw [hn] at ha hb hr hdifference ⊢
  have hborrow : (1 - (true.toNat : Int)) = 0 := rfl
  have hvalue := hdifference.bytes
  have hoverflow := hdifference.overflow
  rw [hborrow, Int.sub_zero] at hvalue hoverflow
  exact top_xor_overflow_iff ha hb hvalue hoverflow

/-- A comparison leaves the carry of the difference. -/
theorem carry_withComparison (r : Registers) (a b : Byte) :
    (r.withComparison a b).status.carry = (subtract a b true).carry := by
  rw [carry_subtract]
  exact decide_eq_decide.2 UInt8.le_iff_toNat_le

/-- Chains of sums and of differences compute with numbers of any width, unsigned and signed.
A difference takes back a sum, its carry compares unsigned numbers, and its top bit and
overflow compare signed ones; a comparison may stand in for its lowest byte. -/
theorem chains_compute_wide_arithmetic {n : Nat} (hn : 1 ≤ n) {as bs : List Byte}
    (has : as.length = n) (hbs : bs.length = n) (v : Bool) :
    let A := littleEndian as
    let B := littleEndian bs
    let signedA := twosComplement n A
    let signedB := twosComplement n B
    let difference := chain subtract true v as bs
    (∀ c, (chain add c v as bs).Computes n (A + B + c.toNat) (signedA + signedB + c.toNat)
      (256 ^ n ≤ A + B + c.toNat)) ∧
    (∀ c, (chain subtract c v as bs).Computes n (A - B - (1 - c.toNat))
      (signedA - signedB - (1 - c.toNat)) (B + (1 - c.toNat) ≤ A)) ∧
    (chain subtract true v (chain add false v as bs).bytes bs).bytes = as ∧
    (difference.carry = true ↔ B ≤ A) ∧
    (((littleEndian difference.bytes).testBit (8 * n - 1) ^^ difference.overflow) = true ↔
      signedA < signedB) ∧
    (2 ≤ n → ∀ a as' b bs', as = a :: as' → bs = b :: bs' → ∀ (r : Registers) (w : Bool),
      let upper := chain subtract (r.withComparison a b).status.carry w as' bs'
      upper.bytes = difference.bytes.tail ∧ upper.carry = difference.carry ∧
        upper.overflow = difference.overflow) := by
  have hlength : bs.length = as.length := hbs.trans has.symm
  have hne : as ≠ [] := by
    rintro rfl
    rw [← has] at hn
    cases hn
  subst has
  refine ⟨?_, ?_, subtract_add_cancel v v hne hlength, ?_,
    signed_lt_iff_chain_subtract v hne hlength, ?_⟩
  · exact fun c => computes_chain_add c v hne hlength
  · exact fun c => computes_chain_subtract c v hne hlength
  · exact (computes_chain_subtract true v hne hlength).carry
  · rintro htwo a as' b bs' rfl rfl r w
    have hupper : as' ≠ [] := by
      rintro rfl
      simp at htwo
    have hchain := chain_overflow_irrelevant subtract (subtract a b true).carry w
      (subtract a b true).overflow (Nat.succ.inj hlength) hupper
    rw [carry_withComparison, hchain]
    exact ⟨rfl, rfl, rfl⟩

/-- One less than the most negative number of two bytes: the difference looks positive, and
only its overflow tells that the first number was the smaller one. -/
theorem chains_mostNegative_less_one :
    1 ≤ 2 ∧ ([0x00, 0x80] : List Byte).length = 2 ∧ ([0x01, 0x00] : List Byte).length = 2 ∧
    let difference := chain subtract true false [0x00, 0x80] [0x01, 0x00]
    let compared := ({} : Registers).withComparison 0x00 0x01
    (littleEndian difference.bytes : Int) = 0x7FFF ∧ difference.overflow = true ∧
    twosComplement 2 0x8000 < twosComplement 2 0x0001 ∧
    2 ≤ 2 ∧ (chain subtract compared.status.carry false [0x80] [0x00]).overflow = true := by
  have has : ([0x00, 0x80] : List Byte).length = 2 := rfl
  have hbs : ([0x01, 0x00] : List Byte).length = 2 := rfl
  obtain ⟨-, hsubtract, -, -, hsigned, hcompared⟩ :=
    chains_compute_wide_arithmetic (by decide) has hbs false
  have hdifference := hsubtract true
  have hoverflow := hdifference.overflow.2 (by unfold LeavesSigned; decide)
  obtain ⟨-, -, hupper⟩ := hcompared (by decide) _ _ _ _ rfl rfl {} false
  refine ⟨by decide, has, hbs, hdifference.bytes.trans (by decide), hoverflow, ?_, by decide, ?_⟩
  · exact hsigned.1 (by decide)
  · rw [hupper, hoverflow]

end Alu

end Nmos6502
