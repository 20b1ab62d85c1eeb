import Asli.Core.Echo
import Asli.Crypto.Primitives

/-!
# Content — what a clipboard backend reads, `asli-clipboard/src/lib.rs` and `image_bytes.rs`

Every backend ends a read the same way: content whose source marked it is reported without having
been read, text is normalized and dropped when there is nothing to it, and an image has to be a PNG.
-/

namespace Asli
namespace Clipboard

open Logic

inductive ClipContent where
  | text (text : String)
  | imagePng (png : Bytes)
  | tooLarge (limit : Nat)
  deriving DecidableEq

structure ClipEvent where
  content : ClipContent
  /-- The source marked this, so it must not be synced. -/
  sensitive : Bool
  deriving DecidableEq

/-- The errors of `asli-clipboard` a connection can run into. -/
inductive Error where
  | connectionLost (detail : String)
  | read (detail : String)
  | tooLarge (limit : Nat)
  | write (detail : String)
  | notUtf8
  deriving DecidableEq

def MAX_IMAGE_BYTES : Nat := 32 * 1024 * 1024
def PNG_MAGIC : Bytes := [0x89, 0x50, 0x4e, 0x47, 0x0d, 0x0a, 0x1a, 0x0a]

def isPng (bytes : Bytes) : Bool :=
  decide (bytes.length > PNG_MAGIC.length) && bytes.take PNG_MAGIC.length == PNG_MAGIC

def validatePng (bytes : Bytes) : Except Error Unit :=
  if bytes.length > MAX_IMAGE_BYTES then .error (.tooLarge MAX_IMAGE_BYTES)
  else if !isPng bytes then
    .error (.read "the source offered image/png but the bytes are not a PNG")
  else .ok ()

/-- What is reported of content its source marked. -/
def marked : ClipEvent :=
  ⟨.text "", true⟩

/-- What is reported of text, when there is anything to it. -/
def ofText (raw : String) : Option ClipEvent :=
  let text := Core.normalize raw
  if !Core.isSyncable text then none else some ⟨.text text, false⟩

/-- What is reported of an image. -/
def ofPng (bytes : Bytes) : Except Error (Option ClipEvent) :=
  match validatePng bytes with
  | .error e => .error e
  | .ok () => .ok (some ⟨.imagePng bytes, false⟩)

end Clipboard
end Asli
