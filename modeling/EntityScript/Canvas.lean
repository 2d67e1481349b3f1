import EntityScript.Value

/-!
The canvas scripts draw on.  It keeps the size of its surface, the paint of the shapes
to come, and every command that reached the surface, in order.
-/

namespace EntityScript

/-- How a shape is painted.  A transparent color leaves no mark. -/
structure Paint where
  fill : Color
  stroke : Color
  deriving DecidableEq, Repr

inductive DrawCommand where
  | resize (width height : Float)
  | rectangle (x y width height : Float) (paint : Paint)
  /-- A full circle around a centre. -/
  | circle (x y radius : Float) (paint : Paint)
  /-- An image by its top left corner. -/
  | image (name : String) (x y width height : Float)
  deriving DecidableEq, Repr

structure Canvas where
  width : Float
  height : Float
  paint : Paint
  commands : Array DrawCommand
  deriving DecidableEq, Repr

namespace Canvas

/-- A canvas of a given size, with black paint and nothing drawn. -/
def ofSize (width height : Float) : Canvas := ⟨width, height, ⟨.black, .black⟩, #[]⟩

def draw (canvas : Canvas) (command : DrawCommand) : Canvas :=
  { canvas with commands := canvas.commands.push command }

/-- Resize the surface; it is never smaller than nothing. -/
def setResolution (canvas : Canvas) (width height : Float) : Canvas :=
  let width := Number.greatest width 0
  let height := Number.greatest height 0
  { canvas with width, height }.draw (.resize width height)

def setBackground (canvas : Canvas) (color : Color) : Canvas :=
  canvas.draw (.rectangle 0 0 canvas.width canvas.height ⟨color, .transparent⟩)

def setFill (canvas : Canvas) (color : Color) : Canvas :=
  { canvas with paint := { canvas.paint with fill := color } }

def setStroke (canvas : Canvas) (color : Color) : Canvas :=
  { canvas with paint := { canvas.paint with stroke := color } }

def drawCircle (canvas : Canvas) (centre : Vector) (radius : Float) : Canvas :=
  canvas.draw (.circle centre.x centre.y radius.abs canvas.paint)

def drawRectangle (canvas : Canvas) (corner : Vector) (width height : Float) : Canvas :=
  canvas.draw (.rectangle corner.x corner.y width height canvas.paint)

def drawImage (canvas : Canvas) (image : Image) (centre : Vector) : Canvas :=
  canvas.draw (.image image.name (centre.x - image.width / 2) (centre.y - image.height / 2)
    image.width image.height)

end Canvas

end EntityScript
