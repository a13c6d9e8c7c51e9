import GlobeBins.Numeric.Power

namespace GlobeBins

abbrev Bytes := List UInt8

inductive ByteOrder where
  | big
  | little
  deriving DecidableEq,Repr

/-- Order in which the machine that runs the program keeps words in memory. -/
def ByteOrder.native : ByteOrder := little

namespace Word

/-- The `width` low bytes of a number, the lowest first. -/
def lowFirst : Nat → Nat → Bytes
  | 0,_ => []
  | width+1,n => UInt8.ofNat (n%256)::lowFirst width (n/256)

def ofLowFirst : Bytes → Nat
  | [] => 0
  | b::bs => b.toNat+256*ofLowFirst bs

def encode (order : ByteOrder) (width n : Nat) : Bytes :=
  match order with
  | .little => lowFirst width n
  | .big => (lowFirst width n).reverse

def decode (order : ByteOrder) (b : Bytes) : Nat :=
  match order with
  | .little => ofLowFirst b
  | .big => ofLowFirst b.reverse

theorem lowFirst_length (width n : Nat) : (lowFirst width n).length = width := by
  induction width generalizing n with
  | zero => rfl
  | succ width ih => simp [lowFirst,ih]

theorem encode_length (order : ByteOrder) (width n : Nat) :
    (encode order width n).length = width := by
  cases order <;> simp [encode,lowFirst_length]

theorem ofLowFirst_lowFirst (width n : Nat) : ofLowFirst (lowFirst width n) = n%256^width := by
  induction width generalizing n with
  | zero => simp [lowFirst,ofLowFirst,Nat.mod_one]
  | succ width ih =>
    have h : (UInt8.ofNat (n%256)).toNat = n%256 := by
      rw [UInt8.toNat_ofNat']
      omega
    rw [lowFirst,ofLowFirst,ih,h,Nat.pow_succ',Nat.mod_mul]

theorem decode_encode (order : ByteOrder) (width n : Nat) :
    decode order (encode order width n) = n%256^width := by
  cases order <;> simp [decode,encode,ofLowFirst_lowFirst]

theorem lowFirst_ofLowFirst (b : Bytes) : lowFirst b.length (ofLowFirst b) = b := by
  induction b with
  | nil => rfl
  | cons c cs ih =>
    have h : c.toNat < 256 := c.toNat_lt
    rw [List.length_cons,lowFirst,ofLowFirst]
    congr 1
    · rw [Nat.add_mul_mod_self_left,Nat.mod_eq_of_lt h,UInt8.ofNat_toNat]
    · rw [Nat.add_mul_div_left _ _ (by omega),Nat.div_eq_of_lt h,Nat.zero_add,ih]

theorem ofLowFirst_lt (b : Bytes) : ofLowFirst b < 256^b.length := by
  induction b with
  | nil => decide
  | cons c cs ih =>
    have h : c.toNat < 256 := c.toNat_lt
    rw [ofLowFirst,List.length_cons,Nat.pow_succ']
    omega

theorem encode_decode (order : ByteOrder) (b : Bytes) : encode order b.length (decode order b) = b := by
  cases order with
  | little => exact lowFirst_ofLowFirst b
  | big =>
    have same := lowFirst_ofLowFirst b.reverse
    rw [List.length_reverse] at same
    rw [encode,decode,same,List.reverse_reverse]

theorem decode_lt (order : ByteOrder) (b : Bytes) : decode order b < 256^b.length := by
  cases order with
  | little => exact ofLowFirst_lt b
  | big =>
    have low := ofLowFirst_lt b.reverse
    rwa [List.length_reverse] at low

end Word

end GlobeBins
