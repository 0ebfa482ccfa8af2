import Lifeline.Data.Schema
import Lifeline.Diagram.Element

/-!
# Diagrams as data

A diagram given as a list of element records instead of a text.
-/

namespace Lifeline.Diagram

open Schema

def argument : Decoder Argument := record fun es =>
  Argument.mk <$> required es "name" text <*> field es "is_literal" false bool

/-- The line that every element has. -/
def line (es : Data.Entries) : Checked Int := required es "line" int

def arguments (es : Data.Entries) : Checked (List Argument) :=
  field es "arguments" [] (list argument)

def entry (es : Data.Entries) : Checked Entry :=
  Entry.mk <$> line es <*> required es "target" text <*> required es "method" text <*> arguments es

def call (es : Data.Entries) : Checked Call :=
  Call.mk <$> line es <*> required es "call_id" int <*> required es "parent_call" (optional int) <*>
    required es "source" text <*> required es "target" text <*> required es "method" text <*>
    arguments es <*> field es "glyph" "->" text

def reply (es : Data.Entries) : Checked Reply :=
  Reply.mk <$> line es <*> required es "call_id" int <*> required es "source" text <*>
    required es "target" text <*> required es "value" text <*>
    field es "type_name" none (optional text) <*> field es "glyph" "-->" text

def raise (es : Data.Entries) : Checked Raise :=
  Raise.mk <$> line es <*> required es "parent_call" (optional int) <*>
    required es "participant" text <*> required es "exception_type" text <*>
    field es "message_template" none (optional text)

def result (es : Data.Entries) : Checked Result :=
  Result.mk <$> line es <*> required es "parent_call" (optional int) <*>
    required es "source" text <*> required es "value" text <*>
    field es "type_name" none (optional text)

def element : Decoder Element := tagged [
  ("participant", fun es => Element.participant <$> line es <*> required es "name" text),
  ("entry", fun es => Element.entry <$> entry es),
  ("call", fun es => Element.call <$> call es),
  ("return", fun es => Element.reply <$> reply es),
  ("throw", fun es => Element.raise <$> raise es),
  ("result", fun es => Element.result <$> result es),
  ("loop", fun es => Element.loop <$> line es <*> required es "label" text),
  ("alt", fun es => Element.alt <$> line es <*> field es "guard" none (optional text)),
  ("else", fun es => Element.orElse <$> line es <*> field es "guard" none (optional text)),
  ("end", fun es => Element.close <$> line es)]

/-- The data form of a diagram. -/
def ofData : Decoder Diagram := record fun es =>
  Diagram.mk <$> field es "elements" [] (list element)

end Lifeline.Diagram
