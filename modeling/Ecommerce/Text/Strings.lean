import Ecommerce.Text.Json

/-!
# Reading arrays of strings

A reader for the texts that `JSON.stringify` makes of an array of strings. It undoes the escapes, so that
reading gives back what was written.
-/

namespace Text
namespace Json

/-- The character that a backslash and a letter stand for. -/
def unescaped : Char → Char
  | 'b' => '\x08'
  | 't' => '\t'
  | 'n' => '\n'
  | 'f' => '\x0c'
  | 'r' => '\r'
  | c => c

def hexValue (c : Char) : Nat := if c.isDigit then c.toNat - '0'.toNat else c.toNat - 'a'.toNat + 10

/-- The rest of a string after its opening quote, and what follows the closing one. -/
def readString : List Char → Option (List Char × List Char)
  | [] => none
  | '"' :: cs => some ([], cs)
  | '\\' :: 'u' :: '0' :: '0' :: x :: y :: cs =>
    (readString cs).map fun (text, rest) => (Char.ofNat (16 * hexValue x + hexValue y) :: text, rest)
  | '\\' :: c :: cs => (readString cs).map fun (text, rest) => (unescaped c :: text, rest)
  | c :: cs => (readString cs).map fun (text, rest) => (c :: text, rest)

/-- The strings after the first one, up to the closing bracket. -/
def readStrings : Nat → List Char → Option (List String)
  | _, [']'] => some []
  | fuel + 1, ',' :: '"' :: cs =>
    (readString cs).bind fun (text, rest) => (readStrings fuel rest).map (String.ofList text :: ·)
  | _, _ => none

/-- The strings of an array. -/
def readTexts (text : List Char) : Option (List String) :=
  match text with
  | ['[', ']'] => some []
  | '[' :: '"' :: cs =>
    (readString cs).bind fun (text, rest) => (readStrings rest.length rest).map (String.ofList text :: ·)
  | _ => none

theorem readString_escape (c : Char) (cs : List Char) :
    readString (escape c ++ cs) = (readString cs).map fun (text, rest) => (c :: text, rest) := by
  unfold escape
  split_ifs with hquote hslash hb ht hn hf hr hlow
  · subst hquote
    rfl
  · subst hslash
    rfl
  · subst hb
    rfl
  · subst ht
    rfl
  · subst hn
    rfl
  · subst hf
    rfl
  · subst hr
    rfl
  · have hcode : ∀ n < 32, Char.ofNat (16 * hexValue (n / 16).digitChar + hexValue (n % 16).digitChar) =
        Char.ofNat n := by decide
    have hc := hcode c.toNat hlow
    rw [Char.ofNat_toNat] at hc
    show (readString cs).map _ = _
    rw [hc]
  · rw [List.singleton_append, readString]
    · exact hquote
    · rintro x y rest rfl
      exact absurd rfl hslash
    · rintro x rest rfl
      exact absurd rfl hslash

theorem readString_quoted (text rest : List Char) :
    readString (text.flatMap escape ++ '"' :: rest) = some (text, rest) := by
  induction text with
  | nil => rfl
  | cons c text ih =>
    rw [List.flatMap_cons, List.append_assoc, readString_escape, ih]
    rfl

/-- The strings of an array after the first one, as they are written. -/
theorem stringifyValues_cons (text : String) (texts : List String) (rest : List Char) :
    stringifyValues ((text :: texts).map .str) ++ rest =
      ',' :: '"' :: (text.toList.flatMap escape ++ '"' :: (stringifyValues (texts.map .str) ++ rest)) := by
  simp [stringifyValues, stringify, quoted]

theorem length_le_stringifyValues (texts : List String) :
    texts.length ≤ (stringifyValues (texts.map .str)).length := by
  induction texts with
  | nil => exact Nat.zero_le _
  | cons text texts ih =>
    have hcons := congrArg List.length (stringifyValues_cons text texts [])
    simp only [List.append_nil, List.length_cons, List.length_append] at hcons ⊢
    omega

theorem readStrings_stringifyValues (texts : List String) {fuel : Nat} (hfuel : texts.length ≤ fuel) :
    readStrings fuel (stringifyValues (texts.map .str) ++ [']']) = some texts := by
  induction texts generalizing fuel with
  | nil => cases fuel <;> rfl
  | cons text texts ih =>
    cases fuel with
    | zero => cases hfuel
    | succ fuel =>
      rw [stringifyValues_cons, readStrings, readString_quoted, Option.bind_some]
      dsimp only
      rw [ih (Nat.le_of_succ_le_succ hfuel), Option.map_some, String.ofList_toList]

/-- Reading undoes writing. -/
theorem readTexts_stringify (texts : List String) : readTexts (stringify (.arr (texts.map .str))) = some texts := by
  cases texts with
  | nil => rfl
  | cons text texts =>
    have hwritten : stringify (.arr ((text :: texts).map .str)) =
        '[' :: '"' :: (text.toList.flatMap escape ++ '"' :: (stringifyValues (texts.map .str) ++ [']'])) := by
      simp [stringify, quoted]
    have hfuel : texts.length ≤ (stringifyValues (texts.map .str) ++ [']']).length := by
      have hle := length_le_stringifyValues texts
      rw [List.length_append]
      omega
    rw [hwritten, readTexts, readString_quoted, Option.bind_some]
    dsimp only
    rw [readStrings_stringifyValues texts hfuel, Option.map_some, String.ofList_toList]

end Json
end Text
