namespace OffRow.Bytes

def replicate (n : Nat) (b : UInt8) : ByteArray := ⟨Array.replicate n b⟩

def zeros (n : Nat) : ByteArray := replicate n 0

def tabulate (n : Nat) (f : Nat → UInt8) : ByteArray := ⟨Array.ofFn fun i : Fin n => f i⟩

def patch (b : ByteArray) (start : Nat) (data : ByteArray) : ByteArray :=
  b.extract 0 start ++ data.extract 0 (b.size - start) ++ b.extract (start + data.size) b.size

def padTo (b : ByteArray) (n : Nat) : ByteArray := b ++ zeros (n - b.size)

variable (b data : ByteArray) (n start : Nat)

@[simp] theorem size_replicate (x : UInt8) : (replicate n x).size = n := by
  simp [replicate, ByteArray.size]

@[simp] theorem size_zeros : (zeros n).size = n := size_replicate n 0

@[simp] theorem size_patch : (patch b start data).size = b.size := by
  simp only [patch, ByteArray.size_append, ByteArray.size_extract]
  omega

@[simp] theorem size_padTo : (padTo b n).size = max b.size n := by
  simp only [padTo, ByteArray.size_append, size_zeros]
  omega

end OffRow.Bytes
