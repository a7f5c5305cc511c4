/-!
# Backslash escapes

| written                 | stands for                          |
|-------------------------|-------------------------------------|
| `\a \b \f \n \r \t \v`  | the control character of that name  |
| `\N`, `\NN`, `\NNN`     | the octal code, digits `0` to `7`   |
| `\xH`, `\xHH`           | the hexadecimal code                |
| `\uH` to `\uHHHH`       | the hexadecimal code                |
| `\UH` to `\UHHHHHHHH`   | the hexadecimal code                |
| `\c`, any other `c`     | `c`                                 |

No escape is malformed: without a digit after it, `\x` stands for `x`, and a code that is no
character stands for U+FFFD.
-/

namespace Parlance.Escape

/-- The value of a digit in a radix up to sixteen. -/
def digit? (radix : UInt32) (c : Char) : Option UInt32 :=
  let value :=
    if '0' ≤ c ∧ c ≤ '9' then c.val - '0'.val
    else if 'a' ≤ c ∧ c ≤ 'f' then c.val - 'a'.val + 10
    else if 'A' ≤ c ∧ c ≤ 'F' then c.val - 'A'.val + 10
    else 16
  if value < radix then some value else none

/-- The digits at the start of a text, `limit` of them at most. -/
def digits (radix : UInt32) : Nat → List Char → List UInt32
  | 0, _ => []
  | _ + 1, [] => []
  | limit + 1, c :: text =>
    match digit? radix c with
    | none => []
    | some value => value :: digits radix limit text

/-- The number that a run of digits writes, the first digit the highest. -/
def number (radix : UInt32) (run : List UInt32) : UInt32 :=
  run.foldl (fun value digit => value * radix + digit) 0

/-- The character of a code, U+FFFD when the code has none. -/
def character (code : UInt32) : Char :=
  if h : code.isValidChar then ⟨code, h⟩ else '\ufffd'

/-- A hexadecimal escape with up to `limit` digits; `c` itself when no digit follows. -/
def hexadecimal (c : Char) (limit : Nat) (following : List Char) : Char × Nat :=
  match digits 16 limit following with
  | [] => (c, 0)
  | run => (character (number 16 run), run.length)

/-- The character that a backslash, `c` and the digits after `c` stand for, and how many
characters of `following` belong to it. -/
def decode (c : Char) (following : List Char) : Char × Nat :=
  match c with
  | 'a' => ('\x07', 0)
  | 'b' => ('\x08', 0)
  | 'f' => ('\x0c', 0)
  | 'n' => ('\n', 0)
  | 'r' => ('\r', 0)
  | 't' => ('\t', 0)
  | 'v' => ('\x0b', 0)
  | 'x' => hexadecimal c 2 following
  | 'u' => hexadecimal c 4 following
  | 'U' => hexadecimal c 8 following
  | _ =>
    match digit? 8 c with
    | none => (c, 0)
    | some first =>
      let run := digits 8 2 following
      (character (number 8 (first :: run)), run.length)

end Parlance.Escape
