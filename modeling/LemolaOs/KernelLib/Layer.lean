import LemolaOs.KernelLib.Pixel
import LemolaOs.Library.Emit

/-!
# Windows, layers and the frame buffer

`Window`, `Layer` and `LayerManager` of `kernel-lib/src/layer.rs` over the
`PixcelWriter` of `kernel/src/graphics.rs`. Drawing is the sequence of bytes it
writes, each at an offset from the frame-buffer base, and the panic that cut it
short, if any: writes go through raw pointers, so nothing bounds the offsets
except the clipping of `Window::flush` itself.

The window's two representations are tied by fields of the structure: `pixels`
has one column of `rows` colours per unit of width, and `buffer` holds four bytes
per pixel.
-/

namespace LemolaOs.Graphics

structure Position where
  x : Nat
  y : Nat
  deriving DecidableEq, Repr

/-- `PixcelWriter<T>`: the geometry of the frame buffer and its pixel format. -/
structure PixcelWriter where
  pixcelsPerScanLine : Nat
  horizontalResolution : Nat
  verticalResolution : Nat
  pixcelFormat : PixcelFormat
  deriving DecidableEq, Repr

/-- Bytes written at offsets from the frame-buffer base, and how drawing ended. -/
abbrev Draw := Emit (Nat × UInt8) Panic

namespace PixcelWriter

/-- The size of the frame buffer in bytes. -/
def frameBufferLen (g : PixcelWriter) : Nat := g.pixcelsPerScanLine * g.verticalResolution * 4

/-- `get_offset(x, y)`, in pixels. -/
def getOffset (g : PixcelWriter) (x y : Nat) : Rust Nat := do
  usizeAdd (← usizeMul y g.pixcelsPerScanLine) x

/-- The three colour bytes in the order of the pixel format. -/
def colorBytes : PixcelFormat → Color → List UInt8
  | .rgb, c => [c.r, c.g, c.b]
  | .bgr, c => [c.b, c.g, c.r]

/-- Number consecutive bytes from `base` on. -/
def bytesAt (base : Nat) (bytes : List UInt8) : List (Nat × UInt8) :=
  bytes.zipIdx.map fun p => (base + p.2, p.1)

/-- `PixcelWritable::write`: the fourth byte of the pixel is left alone. -/
def write (g : PixcelWriter) (x y : Nat) (color : Color) : Draw :=
  .need (g.getOffset x y) fun offset =>
    .need (usizeMul offset 4) fun base =>
      .emit (bytesAt base (colorBytes g.pixcelFormat color))

end PixcelWriter

structure Window where
  transparentColor : Option Color
  renderingHandler : PixcelFormat
  buffer : List UInt8
  pixels : List (List Color)
  position : Position
  /-- The `height` given to `Window::new`. -/
  rows : Nat
  columns : ∀ column ∈ pixels, column.length = rows
  buffer_length : buffer.length = pixels.length * rows * 4
  /-- A `Vec` is never longer than `isize::MAX` bytes. -/
  buffer_fits : buffer.length < usizeSize

namespace Window

/-- `Window::new`; a size whose byte count does not fit panics. -/
def new (width height : Nat) (renderingHandler : PixcelFormat) (transparentColor : Option Color)
    (position : Position) : Rust Window :=
  if fits : width * height * 4 < usizeSize then
    .ok
      { transparentColor := transparentColor
        renderingHandler := renderingHandler
        buffer := List.replicate (width * height * 4) 0
        pixels := List.replicate width (List.replicate height (transparentColor.getD Color.black))
        position := position
        rows := height
        columns := by
          intro column hmem
          rw [List.eq_of_mem_replicate hmem, List.length_replicate]
        buffer_length := by simp
        buffer_fits := by simpa using fits }
  else .error .overflow

def moveTo (w : Window) (newPosition : Position) : Window := { w with position := newPosition }

/-- `(v as isize + diff).try_into().unwrap_or(0)`. -/
def moveCoordinate (v : Nat) (diff : Int) : Rust Nat :=
  let signed : Int := if v < 2 ^ 63 then v else v - 2 ^ 64
  if -2 ^ 63 ≤ signed + diff ∧ signed + diff < 2 ^ 63 then .ok (signed + diff).toNat
  else .error .overflow

def moveRelative (w : Window) (xDiff yDiff : Int) : Rust Window := do
  let x ← moveCoordinate w.position.x xDiff
  let y ← moveCoordinate w.position.y yDiff
  return w.moveTo ⟨x, y⟩

def width (w : Window) : Nat := w.pixels.length

/-- `self.pixels[0].len()`. -/
def height (w : Window) : Rust Nat :=
  match w.pixels with
  | [] => .error .outOfRange
  | column :: _ => .ok column.length

/-- `self.pixels[x][y]`. -/
def pixelAt (w : Window) (x y : Nat) : Rust Color :=
  match w.pixels[x]?.bind fun column => column[y]? with
  | some color => .ok color
  | none => .error .outOfRange

/-- `lo..hi`. -/
def interval (lo hi : Nat) : List Nat := List.range' lo (hi - lo)

/-- One row of the per-pixel path: pixels of the transparent colour are skipped. -/
def flushPixelRow (w : Window) (g : PixcelWriter) (transparentColor : Color) (y : Nat) : Draw :=
  .need (usizeAdd w.position.x w.width) fun xEnd =>
    .forEach (interval w.position.x (min xEnd g.pixcelsPerScanLine)) fun x =>
      .need (w.pixelAt (x - w.position.x) (y - w.position.y)) fun color =>
        if color = transparentColor then .done else g.write x y color

/-- `&self.buffer[from..to]`. -/
def bufferSlice (w : Window) (lo hi : Nat) : Rust (List UInt8) :=
  if lo ≤ hi ∧ hi ≤ w.buffer.length then .ok ((w.buffer.drop lo).take (hi - lo))
  else .error .outOfRange

/-- `(x + y * stride) * 4`, the two index closures of the row-copy path. -/
def byteIndex (stride x y : Nat) : Rust Nat := do
  usizeMul (← usizeAdd x (← usizeMul y stride)) 4

/-- One row of the row-copy path. The destination slice is made from a raw pointer
and is not checked against the frame buffer. -/
def flushRow (w : Window) (g : PixcelWriter) (xStart xEnd y : Nat) : Draw :=
  .need (byteIndex g.pixcelsPerScanLine xStart y) fun offset =>
    .need (do usizeMul (← usizeSub xEnd xStart) 4) fun width =>
      .need (byteIndex w.width (xStart - w.position.x) (y - w.position.y)) fun lo =>
        .need (do byteIndex w.width (← usizeSub xEnd w.position.x) (y - w.position.y)) fun hi =>
          .need (w.bufferSlice lo hi) fun row =>
            -- `copy_from_slice` panics on slices of different lengths
            if row.length = width then .emit (PixcelWriter.bytesAt offset row)
            else .stop (.message "copy_from_slice: source slice length does not match")

/-- `Window::flush`. Both paths clip `y` at the horizontal resolution. -/
def flush (w : Window) (g : PixcelWriter) : Draw :=
  .need (do usizeAdd w.position.y (← w.height)) fun yEnd =>
    let yRange := interval w.position.y (min yEnd g.horizontalResolution)
    match w.transparentColor with
    | some transparentColor => .forEach yRange fun y => w.flushPixelRow g transparentColor y
    | none =>
      .need (usizeAdd w.position.x w.width) fun xEnd =>
        .forEach yRange fun y => w.flushRow g w.position.x (min xEnd g.pixcelsPerScanLine) y

/-- `Window::write` changes the pixel in both representations. -/
def write (w : Window) (x y : Nat) (c : Color) : Rust Window := do
  -- `self.pixels[x][y]`
  let _ ← w.pixelAt x y
  let index ← byteIndex w.width x y
  let _ ← usizeAdd index 4
  if fits : index + 4 ≤ w.buffer.length then
    return { w with
      pixels := w.pixels.modify x (fun column => column.set y c)
      buffer := w.buffer.take index ++ w.renderingHandler.pixel c ++ w.buffer.drop (index + 4)
      columns := by
        intro column hmem
        obtain ⟨i, hi, rfl⟩ := List.mem_iff_getElem.mp hmem
        rw [List.getElem_modify]
        split
        · rw [List.length_set]
          exact w.columns _ (List.getElem_mem _)
        · exact w.columns _ (List.getElem_mem _)
      buffer_length := by
        have hlen := w.buffer_length
        simp only [List.length_append, List.length_take, List.length_drop,
          PixcelFormat.length_pixel, List.length_modify]
        omega
      buffer_fits := by
        have hfits := w.buffer_fits
        simp only [List.length_append, List.length_take, List.length_drop,
          PixcelFormat.length_pixel]
        omega }
  else throw .outOfRange

end Window

/-- `LayerId(usize)`. -/
abbrev LayerId := Nat

/-- `LayerId::uninitialized()`. -/
def uninitialized : LayerId := usizeSize - 1

structure Layer where
  id : LayerId
  window : Window

/-- `LayerManager` with the static counter from which `Layer::new` takes its ids. -/
structure LayerManager where
  writer : PixcelWriter
  layerStack : List LayerId
  layers : LayerId → Option Layer
  latestUnusedId : LayerId

namespace LayerManager

def new (writer : PixcelWriter) : LayerManager := ⟨writer, [], fun _ => none, 0⟩

/-- `new_layer`: the new layer is drawn first, below all others. -/
def newLayer (m : LayerManager) (window : Window) : Rust (LayerId × LayerManager) :=
  let id := m.latestUnusedId
  if id < uninitialized then
    .ok (id, { m with
      layerStack := id :: m.layerStack
      layers := Function.update m.layers id (some ⟨id, window⟩)
      latestUnusedId := id + 1 })
  else .error .assertion

def moveLayer (m : LayerManager) (id : LayerId) (newPosition : Position) : LayerManager :=
  match m.layers id with
  | none => m
  | some layer =>
    let moved := { layer with window := layer.window.moveTo newPosition }
    { m with layers := Function.update m.layers id (some moved) }

def moveRelative (m : LayerManager) (id : LayerId) (xDiff yDiff : Int) : Rust LayerManager :=
  match m.layers id with
  | none => .ok m
  | some layer => do
    let window ← layer.window.moveRelative xDiff yDiff
    return { m with layers := Function.update m.layers id (some { layer with window := window }) }

/-- `self.layers.get(layer_id).unwrap()` followed by the window's flush. -/
def flushLayer (m : LayerManager) (id : LayerId) : Draw :=
  match m.layers id with
  | none => .stop (.message "called `Option::unwrap()` on a `None` value")
  | some layer => layer.window.flush m.writer

/-- `LayerManager::flush` draws the layers from the bottom of the stack up. -/
def flush (m : LayerManager) : Draw := .forEach m.layerStack m.flushLayer

def hide (m : LayerManager) (id : LayerId) : LayerManager :=
  { m with layerStack := m.layerStack.erase id }

def setToTop (m : LayerManager) (id : LayerId) : LayerManager :=
  let m := m.hide id
  { m with layerStack := m.layerStack ++ [id] }

def layer (m : LayerManager) (id : LayerId) : Option Layer := m.layers id

/-- `layer_mut`, with what the caller does to the layer it gets. -/
def layerMut (m : LayerManager) (id : LayerId) (change : Layer → Layer) : LayerManager :=
  match m.layers id with
  | none => m
  | some layer => { m with layers := Function.update m.layers id (some (change layer)) }

end LayerManager

end LemolaOs.Graphics
