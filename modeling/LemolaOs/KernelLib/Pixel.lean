import LemolaOs.Rust

/-!
# Colours and pixel formats

`Color` of `kernel-lib/src/lib.rs`, `PixcelFormat` of `common/src/types.rs` and the
two `RenderedPixel` handlers of `kernel-lib/src/pixel.rs`. A rendered pixel is the
four bytes that go into the frame buffer; the fourth is never written by the
plain pixel writer.
-/

namespace LemolaOs

structure Color where
  r : UInt8
  g : UInt8
  b : UInt8
  deriving DecidableEq, Repr

namespace Color

def black : Color := ⟨0, 0, 0⟩

def white : Color := ⟨255, 255, 255⟩

def green : Color := ⟨0, 255, 0⟩

end Color

inductive PixcelFormat where
  | rgb
  | bgr
  deriving DecidableEq, Repr

/-- `RenderedPixel::pixel` of `Rgb` and `Bgr`. -/
def PixcelFormat.pixel : PixcelFormat → Color → List UInt8
  | .rgb, c => [c.r, c.g, c.b, 0xff]
  | .bgr, c => [c.b, c.g, c.r, 0xff]

@[simp] theorem PixcelFormat.length_pixel (f : PixcelFormat) (c : Color) :
    (f.pixel c).length = 4 := by
  cases f <;> rfl

end LemolaOs
