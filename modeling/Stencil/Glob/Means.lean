import Stencil.Glob.Pattern

/-!
# Means of matching

Simple patterns are not matched part by part: a text, or the beginning, the end or the extension of
one, tells everything about them.  The means of a pattern matters for paths that end in `..`.  Such
a path has no name at its end and so no extension, and a pattern that needs one does not describe it.
-/

namespace Stencil.Glob

/-- What is compared to find out whether a pattern describes a path. -/
inductive Means where
  /-- The name at the end of the path. -/
  | name
  | whole
  /-- The extension of the name at the end of the path. -/
  | extension
  | beginning
  | ending
  /-- The path as a whole with a regular expression.  When the pattern ends in an extension, that of
  the path is compared first. -/
  | expression (extension : Option (List Char))
deriving DecidableEq, Repr

namespace Pattern

/-- The characters of a pattern that stands for nothing but itself. -/
def literals? (pattern : Pattern) : Option (List Char) :=
  pattern.mapM fun
    | .literal char => some char
    | _ => none

/-- Whether a pattern is a text, which is not empty. -/
def isText (pattern : Pattern) : Bool :=
  (literals? pattern).any (!·.isEmpty)

/-- Whether a pattern is a name in any directory. -/
def isName : Pattern → Bool
  | .recursiveStart :: rest => (literals? rest).any fun chars => !chars.isEmpty && !chars.contains '/'
  | _ => false

/-- The pattern without the part for any components at its beginning. -/
def withoutStart : Pattern → Pattern
  | .recursiveStart :: rest => rest
  | pattern => pattern

/-- Whether a pattern is an extension after anything. -/
def isExtension (pattern : Pattern) : Bool :=
  match pattern.withoutStart with
  | .zeroOrMore :: .literal '.' :: rest =>
      (literals? rest).any fun chars => !chars.contains '.' && !chars.contains '/'
  | _ => false

/-- Whether a pattern is a text with anything after it, or a directory with anything in it. -/
def isBeginning (pattern : Pattern) : Bool :=
  match pattern.getLast? with
  | some .zeroOrMore => isText pattern.dropLast
  | some .recursiveEnd => (literals? pattern.dropLast).isSome
  | _ => false

/-- Whether a pattern is a text with anything before it.  A slash alone is no such text. -/
def isEnding (pattern : Pattern) : Bool :=
  let text :=
    match pattern.withoutStart with
    | .zeroOrMore :: rest => rest
    | rest => rest
  (literals? text).any fun chars => !chars.isEmpty && chars != ['/']

/-- The extension that a pattern ends in, with the dot before it. -/
def extension? (pattern : Pattern) : Option (List Char) :=
  let chars := pattern.reverse.map fun
    | .literal char => some char
    | _ => none
  let behind := chars.takeWhile fun char => char != some '.' && char != some '/' && char != none
  match chars.drop behind.length with
  | some '.' :: _ => some ('.' :: (behind.filterMap id).reverse)
  | _ => none

/-- The means of matching a pattern. -/
def means (pattern : Pattern) : Means :=
  if pattern.isName then .name
  else if pattern.isText then .whole
  else if pattern.isExtension then .extension
  else if pattern.isBeginning then .beginning
  else if pattern.isEnding then .ending
  else .expression pattern.extension?

/-- Whether a pattern describes only paths with a name at their end. -/
def needsName (pattern : Pattern) : Bool :=
  match pattern.means with
  | .name | .extension | .expression (some _) => true
  | .whole | .beginning | .ending | .expression none => false

/-- Whether a pattern describes a path. -/
def describes (pattern : Pattern) (path : String) : Bool :=
  let last := (path.toList.reverse.takeWhile (· != '/')).reverse
  !(pattern.needsName && last == ['.', '.']) && pattern.spells path

end Pattern

end Stencil.Glob
