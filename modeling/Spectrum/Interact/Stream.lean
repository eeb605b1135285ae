import Spectrum.Interact.Prog

/-!
# Transfers of a given size

A read or a write may move fewer bytes than it was asked to. `readExact` and `writeAll` repeat the
call until everything has been moved, the stream has ended, or the call has failed. Both make no
call at all when there is nothing to move.

**Each has one rule**, in which the bytes moved so far are the argument of the invariant. The rules
do not mention how the bytes were split, so neither does any proof that uses them.
-/

set_option autoImplicit false

namespace Interact

/-- Why a transfer was not completed. -/
inductive IoError (ε : Type)
  | os (e : ε)
  | unexpectedEof
  | writeZero
  deriving Repr, DecidableEq

variable {E : Type → Type} {S ε : Type}

def readExact (read : Nat → E (Except ε (List UInt8))) (n : Nat) :
    Prog E (Except (IoError ε) (List UInt8)) :=
  if n = 0 then .ret (.ok [])
  else
    .loop [] (fun got => read (n - got.length))
      (fun got r =>
        match r with
        | .ok bytes =>
          if bytes ≠ [] ∧ (got ++ bytes).length < n then some (got ++ bytes) else none
        | .error _ => none)
      (fun got r =>
        match r with
        | .ok bytes => .ret (if bytes = [] then .error .unexpectedEof else .ok (got ++ bytes))
        | .error e => .ret (.error (.os e)))

def writeAll (write : List UInt8 → E (Except ε Nat)) (bytes : List UInt8) :
    Prog E (Except (IoError ε) Unit) :=
  if bytes = [] then .ret (.ok ())
  else
    .loop bytes write
      (fun rest r =>
        match r with
        | .ok n => if n ≠ 0 ∧ rest.drop n ≠ [] then some (rest.drop n) else none
        | .error _ => none)
      (fun _ r =>
        match r with
        | .ok n => .ret (if n = 0 then .error .writeZero else .ok ())
        | .error e => .ret (.error (.os e)))

namespace Prog

variable {R : Spec E S} {x : S}

theorem wp_readExact {read : Nat → E (Except ε (List UInt8))} {n : Nat}
    {Q : Except (IoError ε) (List UInt8) → S → Prop} (I : List UInt8 → S → Prop) (h0 : I [] x)
    (hround : ∀ got y, got.length < n → I got y → R.pre y (read (n - got.length)) ∧
      ∀ r z, R.post y (read (n - got.length)) r z →
        match r with
        | .error e => Q (.error (.os e)) z
        | .ok bytes => (bytes = [] → Q (.error .unexpectedEof) z) ∧
            (bytes ≠ [] → got.length + bytes.length ≤ n ∧ I (got ++ bytes) z))
    (hdone : ∀ got y, got.length = n → I got y → Q (.ok got) y) :
    (readExact read n).wp R Q x := by
  unfold readExact
  split
  · next hn => exact hdone [] x hn.symm h0
  · next hn =>
    have hpos : ([] : List UInt8).length < n := by simpa using Nat.pos_of_ne_zero hn
    refine wp_loop (fun got y => got.length < n ∧ I got y) ⟨hpos, h0⟩ ?_
    rintro got y ⟨hlt, hI⟩
    refine ⟨(hround got y hlt hI).1, fun r z hr => ?_⟩
    have hstep := (hround got y hlt hI).2 r z hr
    cases r with
    | error e => exact ⟨nofun, fun _ => hstep⟩
    | ok bytes =>
      by_cases hb : bytes = []
      · refine ⟨fun s' h => ?_, fun _ => ?_⟩
        · simp [hb] at h
        · simpa [hb] using hstep.1 hb
      · obtain ⟨hle, hI'⟩ := hstep.2 hb
        by_cases hmore : (got ++ bytes).length < n
        · simp only [ne_eq, hb, not_false_eq_true, hmore, and_self, if_true]
          exact ⟨fun s' h => Option.some.inj h ▸ ⟨hmore, hI'⟩, nofun⟩
        · have hfull : (got ++ bytes).length = n := by
            rw [List.length_append] at hmore ⊢
            omega
          simp only [hmore, and_false, if_false, hb]
          exact ⟨nofun, fun _ => hdone _ z hfull hI'⟩

theorem wp_writeAll {write : List UInt8 → E (Except ε Nat)} {bytes : List UInt8}
    {Q : Except (IoError ε) Unit → S → Prop} (I : List UInt8 → S → Prop) (h0 : I bytes x)
    (hround : ∀ rest y, rest ≠ [] → I rest y → R.pre y (write rest) ∧
      ∀ r z, R.post y (write rest) r z →
        match r with
        | .error e => Q (.error (.os e)) z
        | .ok n => (n = 0 → Q (.error .writeZero) z) ∧ (n ≠ 0 → I (rest.drop n) z))
    (hdone : ∀ y, I [] y → Q (.ok ()) y) : (writeAll write bytes).wp R Q x := by
  unfold writeAll
  split
  · next hb => exact hdone x (hb ▸ h0)
  · next hb =>
    refine wp_loop (fun rest y => rest ≠ [] ∧ I rest y) ⟨hb, h0⟩ ?_
    rintro rest y ⟨hrest, hI⟩
    refine ⟨(hround rest y hrest hI).1, fun r z hr => ?_⟩
    have hstep := (hround rest y hrest hI).2 r z hr
    cases r with
    | error e => exact ⟨nofun, fun _ => hstep⟩
    | ok n =>
      by_cases hn : n = 0
      · refine ⟨fun s' h => ?_, fun _ => ?_⟩
        · simp [hn] at h
        · simpa [hn] using hstep.1 hn
      · have hI' := hstep.2 hn
        by_cases hmore : rest.drop n = []
        · simp only [hmore, ne_eq, not_true_eq_false, and_false, if_false, hn]
          exact ⟨nofun, fun _ => hdone z (hmore ▸ hI')⟩
        · simp only [ne_eq, hn, not_false_eq_true, hmore, and_self, if_true]
          exact ⟨fun s' h => Option.some.inj h ▸ ⟨hmore, hI'⟩, nofun⟩

end Prog

end Interact
