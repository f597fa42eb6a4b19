import Workbench.Text.Utf8
set_option autoImplicit false

namespace Workbench

abbrev Raw := List Char

namespace Raw

def ofBytes (bs : List UInt8) : Raw := bs.map fun b => Char.ofNat b.toNat

def toBytes (r : Raw) : List UInt8 := r.map fun c => UInt8.ofNat c.toNat

def ofString (s : String) : Raw := ofBytes (Utf8.encoded s)

/-- The text that the bytes hold; faulty runs read as U+FFFD. -/
def text (r : Raw) : String := String.ofList (Utf8.decodeLossy r.toBytes)

theorem toNat_ofNat {n : Nat} (h : n < 256) : (Char.ofNat n).toNat = n := by
  have hv : n.isValidChar := Or.inl (by omega)
  rw [Char.ofNat, dif_pos hv]
  rfl

theorem toBytes_ofBytes (bs : List UInt8) : (ofBytes bs).toBytes = bs := by
  induction bs with
  | nil => rfl
  | cons b bs ih =>
    simp only [ofBytes, toBytes, List.map_cons, List.cons.injEq] at ih ⊢
    exact ⟨by rw [toNat_ofNat b.toNat_lt]; simp, ih⟩

end Raw
end Workbench
