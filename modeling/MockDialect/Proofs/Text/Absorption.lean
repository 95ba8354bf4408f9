import MockDialect.Text.Fingerprint
import Mathlib.Logic.Function.Basic

namespace MockDialect.Text.Fingerprint

open Function (Injective)

/-- The number that undoes a multiplication by `multiplier`. -/
def inverse : UInt64 := 0xce965057aff6957b

theorem mul_inverse_leftInverse : Function.LeftInverse (· * inverse) (· * multiplier) := by
  intro hash
  have hunit : multiplier * inverse = 1 := by decide
  calc
    hash * multiplier * inverse = hash * (multiplier * inverse) := UInt64.mul_assoc ..
    _ = hash := by rw [hunit, UInt64.mul_one]

theorem mul_multiplier_injective : Injective (· * multiplier) := mul_inverse_leftInverse.injective

theorem absorb_injective (hash : UInt64) : Injective (absorb hash) := by
  intro b c h
  have hxor : hash ^^^ b.toUInt64 = hash ^^^ c.toUInt64 := mul_multiplier_injective h
  exact UInt8.toUInt64_inj.mp ((UInt64.xor_right_inj hash).mp hxor)

theorem absorb_left_injective (byte : UInt8) : Injective (absorb · byte) := by
  intro hash hash' h
  have hxor : hash ^^^ byte.toUInt64 = hash' ^^^ byte.toUInt64 := mul_multiplier_injective h
  exact (UInt64.xor_left_inj byte.toUInt64).mp hxor

theorem foldl_absorb_injective (bytes : List UInt8) : Injective (bytes.foldl absorb ·) := by
  induction bytes with
  | nil => exact Function.injective_id
  | cons byte bytes ih => exact ih.comp (absorb_left_injective byte)

theorem ofBytes_append (before after : List UInt8) : ofBytes (before ++ after) = after.foldl absorb (ofBytes before) :=
  List.foldl_append

theorem ofBytes_ne_of_byte_ne (before after : List UInt8) {b c : UInt8} (h : b ≠ c) :
    ofBytes (before ++ [b] ++ after) ≠ ofBytes (before ++ [c] ++ after) := by
  intro heq
  rw [ofBytes_append, ofBytes_append _ after, ofBytes_append, ofBytes_append] at heq
  -- What follows the byte is undone first, then the byte itself.
  have hstate : absorb (ofBytes before) b = absorb (ofBytes before) c := foldl_absorb_injective after heq
  exact h (absorb_injective _ hstate)

/-- Two texts that have the same bytes except for one. -/
def DifferInByte (text changed : String) : Prop :=
  ∃ (before after : List UInt8) (b c : UInt8), b ≠ c ∧ text.toUTF8.toList = before ++ [b] ++ after ∧
    changed.toUTF8.toList = before ++ [c] ++ after

theorem DifferInByte.ofText_ne {text changed : String} (h : DifferInByte text changed) :
    ofText changed ≠ ofText text := by
  obtain ⟨before, after, b, c, hbc, htext, hchanged⟩ := h
  rw [ofText, ofText, htext, hchanged]
  exact ofBytes_ne_of_byte_ne before after hbc.symm

end MockDialect.Text.Fingerprint
