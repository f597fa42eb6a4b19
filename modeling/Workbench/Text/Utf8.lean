set_option autoImplicit false

namespace Workbench.Utf8

inductive Front where
  | char (c : Char) (rest : List UInt8)
  | bad (length : Nat) (rest : List UInt8)
  | cut
  deriving Repr

def isContinuation (b : UInt8) : Bool := 0x80 ≤ b && b ≤ 0xBF

def low (b : UInt8) (bits : Nat) : Nat := b.toNat % Nat.pow 2 bits

def secondOk (b₀ b₁ : UInt8) : Bool :=
  if b₀ == 0xE0 then 0xA0 ≤ b₁ && b₁ ≤ 0xBF
  else if b₀ == 0xED then 0x80 ≤ b₁ && b₁ ≤ 0x9F
  else if b₀ == 0xF0 then 0x90 ≤ b₁ && b₁ ≤ 0xBF
  else if b₀ == 0xF4 then 0x80 ≤ b₁ && b₁ ≤ 0x8F
  else isContinuation b₁

/-- Bytes that a sequence with this first byte takes; 0 when none starts so. -/
def width (b₀ : UInt8) : Nat :=
  if b₀ < 0x80 then 1
  else if 0xC2 ≤ b₀ && b₀ ≤ 0xDF then 2
  else if 0xE0 ≤ b₀ && b₀ ≤ 0xEF then 3
  else if 0xF0 ≤ b₀ && b₀ ≤ 0xF4 then 4
  else 0

def front (b₀ : UInt8) (s : List UInt8) : Front :=
  match width b₀ with
  | 0 => .bad 1 s
  | 1 => .char (Char.ofNat b₀.toNat) s
  | w =>
    match s with
    | [] => .cut
    | b₁ :: s₁ =>
      if !secondOk b₀ b₁ then .bad 1 s
      else if w == 2 then .char (Char.ofNat (low b₀ 5 * 64 + low b₁ 6)) s₁
      else match s₁ with
        | [] => .cut
        | b₂ :: s₂ =>
          if !isContinuation b₂ then .bad 2 s₁
          else if w == 3 then
            .char (Char.ofNat ((low b₀ 4 * 64 + low b₁ 6) * 64 + low b₂ 6)) s₂
          else match s₂ with
            | [] => .cut
            | b₃ :: s₃ =>
              if !isContinuation b₃ then .bad 3 s₂
              else .char (Char.ofNat
                (((low b₀ 3 * 64 + low b₁ 6) * 64 + low b₂ 6) * 64 + low b₃ 6)) s₃

theorem front_char_length {b₀ : UInt8} {s r : List UInt8} {c : Char}
    (h : front b₀ s = .char c r) : r.length ≤ s.length := by
  unfold front at h
  repeat' (split at h)
  all_goals first
    | (simp at h; done)
    | (simp only [Front.char.injEq] at h; obtain ⟨-, rfl⟩ := h; simp; done)
    | (simp only [Front.char.injEq] at h; obtain ⟨-, rfl⟩ := h; simp only [List.length_cons]; omega)

theorem front_bad_length {b₀ : UInt8} {s r : List UInt8} {n : Nat}
    (h : front b₀ s = .bad n r) : r.length ≤ s.length := by
  unfold front at h
  repeat' (split at h)
  all_goals first
    | (simp at h; done)
    | (simp only [Front.bad.injEq] at h; obtain ⟨-, rfl⟩ := h; simp)

inductive Fault where
  | invalid (length index : Nat)
  | incomplete (index : Nat)
  deriving DecidableEq, Repr

def Fault.message : Fault → String
  | .invalid n i => s!"invalid utf-8 sequence of {n} bytes from index {i}"
  | .incomplete i => s!"incomplete utf-8 byte sequence from index {i}"

def decodeFrom (index : Nat) : List UInt8 → Except Fault (List Char)
  | [] => .ok []
  | b :: s =>
    match h : front b s with
    | .char c r =>
      have := front_char_length h
      (decodeFrom (index + width b) r).map (c :: ·)
    | .bad n _ => .error (.invalid n index)
    | .cut => .error (.incomplete index)
termination_by s => s.length

def decode (s : List UInt8) : Except Fault (List Char) := decodeFrom 0 s

/-- Never fails: each faulty run reads as one U+FFFD. -/
def decodeLossy : List UInt8 → List Char
  | [] => []
  | b :: s =>
    match h : front b s with
    | .char c r =>
      have := front_char_length h
      c :: decodeLossy r
    | .bad _ r =>
      have := front_bad_length h
      Char.ofNat 0xFFFD :: decodeLossy r
    | .cut => [Char.ofNat 0xFFFD]
termination_by s => s.length

def encodeChar (c : Char) : List UInt8 := String.utf8EncodeChar c

def encode (s : List Char) : List UInt8 := s.flatMap encodeChar

def encoded (s : String) : List UInt8 := s.toUTF8.toList

end Workbench.Utf8
