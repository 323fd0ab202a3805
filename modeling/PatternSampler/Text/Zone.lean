set_option autoImplicit false

/-!
# Escapes and bracket expressions

A backslash takes away the meaning of the character behind it, and between `[` and `]` no other
character opens or closes anything. Every scan that looks for parentheses or separators has to
agree on these two rules, so they are written once: the `Zone` of a position says which of them
holds there.

## Main definitions

* `Zone` — what the characters read so far say about the next one.
* `Zone.next` — the zone behind one more character.
* `Zone.after` — the zone behind a whole text.

## Main results

* `Zone.after_append` — zones compose along a text.
-/

namespace PatternSampler

/-- What the characters in front of a position say about the character standing there. -/
inductive Zone
  /-- The character has its own meaning. -/
  | plain
  /-- The character stands behind a backslash. -/
  | escaped
  /-- The character stands in a bracket expression. -/
  | bracket
  /-- The character stands in a bracket expression, behind a backslash. -/
  | bracketEscaped
deriving DecidableEq, Repr, Inhabited

namespace Zone

/-- The zone behind the character `c`. -/
def next : Zone → Char → Zone
  | plain, c => if c = '\\' then escaped else if c = '[' then bracket else plain
  | escaped, _ => plain
  | bracket, c => if c = '\\' then bracketEscaped else if c = ']' then plain else bracket
  | bracketEscaped, _ => bracket

/-- The zone behind a text. -/
def after (z : Zone) (text : List Char) : Zone := text.foldl next z

/-- An empty text does not change the zone. -/
@[simp] theorem after_nil (z : Zone) : z.after [] = z := rfl

/-- The zone behind a text is found one character at a time. -/
@[simp] theorem after_cons (z : Zone) (c : Char) (text : List Char) :
    z.after (c :: text) = (z.next c).after text := rfl

/-- The zone behind two texts is found one text after the other. -/
theorem after_append (z : Zone) (x y : List Char) : z.after (x ++ y) = (z.after x).after y :=
  List.foldl_append

end Zone

end PatternSampler
