/-!
Byte strings and little-endian numbers. All multi-byte fields on the wire are little-endian, so one
pair of functions indexed by the width serves every one of them. The two are inverse on numbers that
fit (`ofLittleEndian_littleEndian`) and on byte strings of that width (`littleEndian_ofLittleEndian`).
-/
namespace DescriptorExchange

abbrev Bytes := List UInt8

/-- The low `width` bytes of a number, least significant first. -/
def littleEndian : Nat → Nat → Bytes
  | 0, _ => []
  | width + 1, n => UInt8.ofNat n :: littleEndian width (n / 256)

def ofLittleEndian : Bytes → Nat
  | [] => 0
  | b :: rest => b.toNat + 256 * ofLittleEndian rest

@[simp] theorem length_littleEndian (width n : Nat) : (littleEndian width n).length = width := by
  induction width generalizing n with
  | zero => rfl
  | succ width ih => simp [littleEndian, ih]

theorem ofLittleEndian_lt (bs : Bytes) : ofLittleEndian bs < Nat.pow 256 bs.length := by
  induction bs with
  | nil => exact Nat.zero_lt_one
  | cons b rest ih =>
    have hb := b.toNat_lt
    change b.toNat + 256 * ofLittleEndian rest < Nat.pow 256 rest.length * 256
    omega

theorem ofLittleEndian_littleEndian {width n : Nat} (h : n < Nat.pow 256 width) :
    ofLittleEndian (littleEndian width n) = n := by
  induction width generalizing n with
  | zero => exact (Nat.lt_one_iff.mp h).symm
  | succ width ih =>
    change n < Nat.pow 256 width * 256 at h
    have hd : n / 256 < Nat.pow 256 width := by omega
    simp only [littleEndian, ofLittleEndian, ih hd, UInt8.toNat_ofNat']
    omega

theorem littleEndian_ofLittleEndian (bs : Bytes) : littleEndian bs.length (ofLittleEndian bs) = bs := by
  induction bs with
  | nil => rfl
  | cons b rest ih =>
    have hb := b.toNat_lt
    have hq : (b.toNat + 256 * ofLittleEndian rest) / 256 = ofLittleEndian rest := by omega
    simp only [List.length_cons, littleEndian, ofLittleEndian, hq, ih, List.cons.injEq, and_true]
    apply UInt8.toNat_inj.mp
    rw [UInt8.toNat_ofNat']
    omega

def word16 (w : UInt16) : Bytes := littleEndian 2 w.toNat

def word32 (w : UInt32) : Bytes := littleEndian 4 w.toNat

@[simp] theorem length_word16 (w : UInt16) : (word16 w).length = 2 := length_littleEndian 2 _

@[simp] theorem length_word32 (w : UInt32) : (word32 w).length = 4 := length_littleEndian 4 _

end DescriptorExchange
