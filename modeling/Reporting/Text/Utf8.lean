import Reporting.Text.Encoding
/-!
Decoding in place: bytes are checked for UTF-8, the characters before the first fault are added to a
text, and decoding goes on behind the fault.
-/
namespace Reporting.Encoding

/-- What the bytes after a first byte have to be; none if no character begins with it. -/
def continuations? (first : Nat) : Option (List (Nat → Bool)) :=
  if first < 0x80 then some []
  else if 0xC2 ≤ first ∧ first < 0xE0 then some [isContinuation]
  else if 0xE0 ≤ first ∧ first < 0xF0 then some [isSecond first, isContinuation]
  else if 0xF0 ≤ first ∧ first < 0xF5 then some [isSecond first, isContinuation, isContinuation]
  else none

/-- The part of a code point that a first byte holds. -/
def leading (first : Nat) : Nat :=
  if first < 0x80 then first
  else if first < 0xE0 then first - 0xC0
  else if first < 0xF0 then first - 0xE0
  else first - 0xF0

/-- The character of a first byte and the bytes after it. -/
def character (first : Nat) (more : List Nat) : Char :=
  Char.ofNat (more.foldl (fun n b => n * 0x40 + (b - 0x80)) (leading first))

/-- How many bytes at the front are as they have to be, one after the other. -/
def fitting : List (Nat → Bool) → List Nat → Nat
  | p :: ps, b :: bs => if p b then fitting ps bs + 1 else 0
  | _, _ => 0

/-- What stands first in bytes, with the number of bytes after the first one that belong to it. -/
inductive Front
  | character (c : Char) (more : Nat)
  /-- A sequence that belongs to no character. -/
  | invalid (more : Nat)
  /-- The bytes end inside a character. -/
  | incomplete

/-- What a byte and those after it begin with. -/
def front (first : Nat) (r : List Nat) : Front :=
  match continuations? first with
  | none => .invalid 0
  | some ps =>
    let more := fitting ps r
    if more = ps.length then .character (character first (r.take more)) more
    else if more = r.length then .incomplete
    else .invalid more

/-- Why bytes are not UTF-8. -/
structure Fault where
  /-- How many bytes in front of the fault are characters. -/
  validUpTo : Nat
  /-- The size of the sequence that belongs to no character; none if the bytes end inside one. -/
  invalid? : Option Nat

/-- The characters of bytes, or their first fault. -/
def check : List Nat → Except Fault (List Char)
  | [] => .ok []
  | first :: r =>
    match front first r with
    | .character c more =>
      match check (r.drop more) with
      | .ok s => .ok (c :: s)
      | .error f => .error { f with validUpTo := more + 1 + f.validUpTo }
    | .invalid more => .error ⟨0, some (more + 1)⟩
    | .incomplete => .error ⟨0, none⟩
termination_by bytes => bytes.length
decreasing_by
  rw [List.length_drop, List.length_cons]
  omega

theorem invalid_pos {bytes : List Nat} {f : Fault} {n : Nat} (h : check bytes = .error f)
    (hn : f.invalid? = some n) : bytes ≠ [] ∧ 0 < n := by
  induction bytes using check.induct generalizing f with
  | case1 =>
    rw [check] at h
    cases h
  | case2 first r c more hfront s hs ih =>
    rw [check, hfront] at h
    simp only [hs] at h
    cases h
  | case3 first r c more hfront f' hf ih =>
    rw [check, hfront] at h
    simp only [hf] at h
    cases h
    exact ⟨List.cons_ne_nil _ _, (ih hf hn).2⟩
  | case4 first r more hfront =>
    rw [check, hfront] at h
    cases h
    cases hn
    exact ⟨List.cons_ne_nil _ _, Nat.succ_pos _⟩
  | case5 first r hfront =>
    rw [check, hfront] at h
    cases h
    cases hn

/-- Adds characters at the end of a text. -/
def push (s : List Char) : StateM String Unit := modify (· ++ String.ofList s)

/-- Adds the characters of bytes, and goes on behind each sequence that belongs to none. -/
def pushUtf8 (bytes : List Nat) : StateM String Unit :=
  match _h : check bytes with
  | .ok s => push s
  | .error f => do
    match check (bytes.take f.validUpTo) with
    | .ok s => push s
    | .error _ => pure ()
    match _hn : f.invalid? with
    | some n => pushUtf8 (bytes.drop (f.validUpTo + n))
    | none => pure ()
termination_by bytes.length
decreasing_by
  have hpos := invalid_pos _h _hn
  have hlength := List.length_pos_iff.2 hpos.1
  rw [List.length_drop]
  omega

/-- Decodes into a text in place of what it held before. -/
def decodeInto (e : Encoding) (bytes : List Nat) : StateM String String := do
  set ""
  match e with
  | utf8 => pushUtf8 bytes
  | latin1 => push (bytes.map Char.ofNat)
  | ascii => push ((bytes.filter (· < 0x80)).map Char.ofNat)
  get

end Reporting.Encoding
