import EntityScript.Canvas
import EntityScript.Json.Layout

/-!
Draw commands as JSON text.
-/

namespace EntityScript

open JsonLayout

/-- A number; one that is not finite is null. -/
def dumpNumber (x : Float) : JsonLayout :=
  .atom (if x.isFinite then (Number.Notation.data.write x).toList else "null".toList)

def Color.dump (color : Color) : JsonLayout :=
  let channel (byte : UInt8) : JsonLayout := .atom (toString byte.toNat).toList
  .object
    [("r", channel color.red), ("g", channel color.green), ("b", channel color.blue),
      ("a", dumpNumber color.alpha)]

def Paint.dump (paint : Paint) : JsonLayout :=
  .object [("fill", paint.fill.dump), ("stroke", paint.stroke.dump)]

def DrawCommand.dump : DrawCommand → JsonLayout
  | resize width height =>
      .object
        [("op", .text "set_resolution"), ("width", dumpNumber width),
          ("height", dumpNumber height)]
  | rectangle x y width height paint =>
      .object
        [("op", .text "rect"), ("x", dumpNumber x), ("y", dumpNumber y),
          ("width", dumpNumber width), ("height", dumpNumber height), ("paint", paint.dump)]
  | circle x y radius paint =>
      .object
        [("op", .text "circle"), ("x", dumpNumber x), ("y", dumpNumber y),
          ("radius", dumpNumber radius), ("paint", paint.dump)]
  | image name x y width height =>
      .object
        [("op", .text "image"), ("name", .text name), ("x", dumpNumber x),
          ("y", dumpNumber y), ("width", dumpNumber width), ("height", dumpNumber height)]

def Canvas.dump (canvas : Canvas) : String :=
  (JsonLayout.array (canvas.commands.toList.map DrawCommand.dump)).render

end EntityScript
