/-!
What scripts can reach without defining it: the members of a fixed set of libraries,
written `Library::member`, and the global functions.
-/

namespace EntityScript

inductive Library where
  | gfx
  | input
  | color
  | vector
  | math
  deriving DecidableEq, Repr

namespace Library

def name : Library → String
  | gfx => "Gfx"
  | input => "Input"
  | color => "Color"
  | vector => "Vector2"
  | math => "Math"

def all : List Library := [gfx, input, color, vector, math]

def ofName? (name : String) : Option Library := all.find? (·.name = name)

end Library

/-- How a library member is used. -/
inductive MemberShape where
  /-- Called with a number of arguments between two bounds. -/
  | function (least most : Nat)
  /-- Read without parentheses. -/
  | property
  deriving DecidableEq, Repr

/-- A member of a library. -/
inductive Builtin where
  | setResolution
  | width
  | height
  | setBackground
  | fill
  | stroke
  | noFill
  | noStroke
  | drawCircle
  | drawRect
  | drawImage
  | image
  | getVector
  | isDown
  | colorNew
  | colorFromHex
  | vectorNew
  | vectorZero
  | sin
  | cos
  | tan
  | sqrt
  | abs
  | floor
  | ceil
  | round
  | min
  | max
  | atan2
  | clamp
  | pi
  deriving DecidableEq, Repr

/-- How scripts refer to a library member and what it is for. -/
structure MemberEntry where
  library : Library
  name : String
  shape : MemberShape
  description : String
  deriving DecidableEq, Repr

namespace Builtin

def all : List Builtin :=
  [setResolution, width, height, setBackground, fill, stroke, noFill, noStroke, drawCircle,
    drawRect, drawImage, image, getVector, isDown, colorNew, colorFromHex, vectorNew,
    vectorZero, sin, cos, tan, sqrt, abs, floor, ceil, round, min, max, atan2, clamp, pi]

def entry : Builtin → MemberEntry
  | setResolution => ⟨.gfx, "setResolution", .function 2 2, "Resize the drawing surface"⟩
  | width => ⟨.gfx, "width", .property, "Surface width in pixels"⟩
  | height => ⟨.gfx, "height", .property, "Surface height in pixels"⟩
  | setBackground => ⟨.gfx, "setBackground", .function 1 1, "Clear the surface with a color"⟩
  | fill => ⟨.gfx, "fill", .function 1 1, "Set the fill color"⟩
  | stroke => ⟨.gfx, "stroke", .function 1 1, "Set the stroke color"⟩
  | noFill => ⟨.gfx, "noFill", .function 0 0, "Fill with transparent"⟩
  | noStroke => ⟨.gfx, "noStroke", .function 0 0, "Stroke with transparent"⟩
  | drawCircle => ⟨.gfx, "drawCircle", .function 2 2, "Circle at pos with radius"⟩
  | drawRect =>
      ⟨.gfx, "drawRect", .function 3 3, "Rectangle with top-left pos, width, height"⟩
  | drawImage => ⟨.gfx, "drawImage", .function 2 2, "Image centred on pos"⟩
  | image => ⟨.gfx, "image", .function 1 1, "Look up a host-registered image by name"⟩
  | getVector =>
      ⟨.input, "getVector", .function 4 4, "Normalized direction from four held keys"⟩
  | isDown => ⟨.input, "isDown", .function 1 1, "Whether a key is held"⟩
  | colorNew =>
      ⟨.color, "new", .function 3 4, "Color from 0-255 channels and optional 0-1 alpha"⟩
  | colorFromHex => ⟨.color, "fromHex", .function 1 1, "Color from #rgb or #rrggbb"⟩
  | vectorNew => ⟨.vector, "new", .function 2 2, "Vector from x and y"⟩
  | vectorZero => ⟨.vector, "zero", .function 0 0, "The zero vector"⟩
  | sin => ⟨.math, "sin", .function 1 1, "Sine"⟩
  | cos => ⟨.math, "cos", .function 1 1, "Cosine"⟩
  | tan => ⟨.math, "tan", .function 1 1, "Tangent"⟩
  | sqrt => ⟨.math, "sqrt", .function 1 1, "Square root"⟩
  | abs => ⟨.math, "abs", .function 1 1, "Absolute value"⟩
  | floor => ⟨.math, "floor", .function 1 1, "Round down"⟩
  | ceil => ⟨.math, "ceil", .function 1 1, "Round up"⟩
  | round => ⟨.math, "round", .function 1 1, "Round to nearest"⟩
  | min => ⟨.math, "min", .function 2 2, "Minimum"⟩
  | max => ⟨.math, "max", .function 2 2, "Maximum"⟩
  | atan2 => ⟨.math, "atan2", .function 2 2, "Arctangent of y/x"⟩
  | clamp => ⟨.math, "clamp", .function 3 3, "Constrain x to [min, max]"⟩
  | pi => ⟨.math, "PI", .property, "Ratio of circumference to diameter"⟩

def name (builtin : Builtin) : String := builtin.entry.name

def shape (builtin : Builtin) : MemberShape := builtin.entry.shape

def find? (library member : String) : Option Builtin :=
  match Library.ofName? library with
  | none => none
  | some home => all.find? fun builtin =>
      builtin.entry.library = home && builtin.entry.name = member

end Builtin

/-- A function that scripts call by its bare name. -/
inductive Global where
  | emit
  | destroy
  | print
  deriving DecidableEq, Repr

/-- How scripts refer to a global function and what it is for. -/
structure GlobalEntry where
  name : String
  least : Nat
  most : Nat
  description : String
  deriving DecidableEq, Repr

namespace Global

def all : List Global := [emit, destroy, print]

def entry : Global → GlobalEntry
  | emit => ⟨"emit", 1, 2, "Broadcast an event with an optional payload"⟩
  | destroy => ⟨"destroy", 1, 1, "Mark an entity for removal"⟩
  | print => ⟨"print", 1, 1, "Log a value"⟩

def name (global : Global) : String := global.entry.name

def find? (name : String) : Option Global := all.find? (·.entry.name = name)

end Global

end EntityScript
