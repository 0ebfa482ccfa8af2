import Lifeline.Text.Basic

/-!
# Paths

Paths of files as they are written (`Path.ofString`): names with slashes between them. Empty names
and single dots count for nothing, a doubled dot for the directory above.
-/

namespace Lifeline.Store

/-- A path: the names on the way, from the working directory or from the root of all files. The root
is written with one slash or with two. -/
structure Path where
  root : String := ""
  names : List String := []
deriving Repr, DecidableEq

namespace Path

/-- The path that a text writes. -/
def ofString (text : String) : Path where
  root :=
    match text.toList.takeWhile (· == '/') with
    | [] => ""
    | ['/', '/'] => "//"
    | _ => "/"
  names := (Text.Packed.splitOn '/' text).filter fun n => !n.isEmpty && n != "."

/-- Whether a path starts from the root of all files. -/
def isAbsolute (p : Path) : Bool := !p.root.isEmpty

/-- The written form of a path. -/
def text (p : Path) : String :=
  if p.isAbsolute || !p.names.isEmpty then p.root ++ Text.Packed.join "/" p.names else "."

/-- The directory of what a path leads to. -/
def parent (p : Path) : Path := { p with names := p.names.dropLast }

/-- A path that starts where another one leads to. -/
def append (p q : Path) : Path :=
  if q.isAbsolute then q else { p with names := p.names ++ q.names }

/-- The last name of a path. -/
def name (p : Path) : String := p.names.getLast?.getD ""

end Path

end Lifeline.Store
