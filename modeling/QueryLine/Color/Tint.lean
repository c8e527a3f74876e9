import QueryLine.Color.Palette

/-!
Lighter and darker shades of a colour, by way of hue, saturation and value in single precision.
-/

namespace QueryLine

/-- Hue in degrees, saturation and value up to 255. -/
structure Hsv where
  hue : Float32
  saturation : Float32
  value : Float32

def Rgb.toHsv (c : Rgb) : Hsv :=
  let r := c.red.toFloat32
  let g := c.green.toFloat32
  let b := c.blue.toFloat32
  let high := max c.red (max c.green c.blue)
  let low := min c.red (min c.green c.blue)
  let value := high.toFloat32
  let delta := value - low.toFloat32
  let hue :=
    if high = low then 0
    else if high = c.red then
      let sixth := (g - b) / delta
      60 * (if sixth < 0 then sixth + 6 else sixth)
    else if high = c.green then 60 * ((b - r) / delta + 2)
    else 60 * ((r - g) / delta + 4)
  ⟨hue, if high = 0 then 0 else delta * 255 / value, value⟩

def Hsv.toRgb (c : Hsv) : Rgb :=
  let chroma := c.value * (c.saturation / 255)
  let sextant := c.hue / 60
  let second := chroma * (1 - (sextant - 2 * (sextant / 2).floor - 1).abs)
  let lift := c.value - chroma
  let (r, g, b) : Float32 × Float32 × Float32 :=
    match sextant.toUInt32 with
    | 0 => (chroma, second, 0)
    | 1 => (second, chroma, 0)
    | 2 => (0, chroma, second)
    | 3 => (0, second, chroma)
    | 4 => (second, 0, chroma)
    | _ => (chroma, 0, second)
  let channel (x : Float32) : UInt8 := (x + lift).round.toUInt8
  ⟨channel r, channel g, channel b⟩

/-- Scales the value by `percent`. What exceeds the greatest value is taken from the saturation, so
that a bright colour fades to white. -/
def Rgb.shade (c : Rgb) (percent : UInt32) : Rgb :=
  if percent = 0 then c
  else
    let hsv := c.toHsv
    let value := hsv.value * percent.toFloat32 / 100
    if value > 255 then
      let rest := hsv.saturation - (value - 255)
      Hsv.toRgb ⟨hsv.hue, if rest > 0 then rest else 0, 255⟩
    else Hsv.toRgb ⟨hsv.hue, hsv.saturation, value⟩

end QueryLine
