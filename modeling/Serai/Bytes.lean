import Mathlib

/-!
# Byte arrays and build profiles

What the models of the tributary and of the Monero code share of Rust. `[u8; n]` is a list of
bytes that carries its length, with the three operations the source performs on them:
writing two arrays one after the other, and taking the first `m` bytes or the rest.
`Profile` is what integer overflow does, which depends on how the crate is built.
-/

namespace Serai

/-- What `+` on a fixed-width integer does on overflow: panic when overflow checks are on
(debug builds), wrap otherwise (release builds). -/
inductive Profile
  | debug
  | release

/-- A Rust byte array `[u8; n]`. -/
@[ext]
structure Bytes (n : ℕ) where
  toList : List UInt8
  length_eq : toList.length = n
  deriving DecidableEq

namespace Bytes

/-- `[0; n]`. -/
def zeros (n : ℕ) : Bytes n := ⟨List.replicate n 0, List.length_replicate n 0⟩

/-- Two arrays written one after the other. -/
def append {m n : ℕ} (a : Bytes m) (b : Bytes n) : Bytes (m + n) :=
  ⟨a.toList ++ b.toList, by simp [a.length_eq, b.length_eq]⟩

/-- The first `m` bytes, `&b[.. m]`. -/
def left (m n : ℕ) (b : Bytes (m + n)) : Bytes m :=
  ⟨b.toList.take m, by simp [b.length_eq]⟩

/-- The bytes after the first `m`, `&b[m ..]`. -/
def right (m n : ℕ) (b : Bytes (m + n)) : Bytes n :=
  ⟨b.toList.drop m, by simp [b.length_eq]⟩

@[simp] lemma left_append {m n : ℕ} (a : Bytes m) (b : Bytes n) :
    left m n (a.append b) = a := by
  ext1; simp [left, append, ← a.length_eq]

@[simp] lemma right_append {m n : ℕ} (a : Bytes m) (b : Bytes n) :
    right m n (a.append b) = b := by
  ext1; simp [right, append, ← a.length_eq]

@[simp] lemma take_append {m n : ℕ} (a : Bytes m) (b : Bytes n) :
    (a.append b).toList.take m = a.toList :=
  congrArg Bytes.toList (left_append a b)

end Bytes

end Serai
