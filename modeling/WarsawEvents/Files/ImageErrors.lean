import WarsawEvents.RowSecurity.Endpoints

/-! # What Pillow raises on uploaded bytes

`_sniff` and `_process_image` call Pillow step by step, each step in a `try` with its own list of
exceptions. Together the lists cover everything the steps raise but one: `open` refuses a header that
declares more than twice the global pixel limit with an exception that neither list for `open` has.
-/

namespace WarsawEvents.Files
set_option autoImplicit false

open RowSecurity (Env PillowError PillowImage Response sniff pdfMagic unsupported imageFormats)

/-! ## Pillow -/

/-- Left, upper, right and lower edge. -/
structure Box where
  left : ℕ
  top : ℕ
  right : ℕ
  bottom : ℕ

def Box.Inside (b : Box) (size : ℕ × ℕ) : Prop :=
  b.left ≤ b.right ∧ b.right ≤ size.1 ∧ b.top ≤ b.bottom ∧ b.bottom ≤ size.2

/-- What identifying an image may raise. -/
abbrev HeaderError := {e : PillowError // e ≠ .syntaxError ∧ e ≠ .decompressionBomb}

/-- What decoding may raise. -/
abbrev LoadError := {e : PillowError // e ≠ .syntaxError}

/-- The steps of Pillow, on loaded images `ρ`. A box inside the image can be cropped. -/
structure Pillow (ρ : Type) where
  header : List UInt8 → Except HeaderError PillowImage
  load : List UInt8 → Except LoadError ρ
  convert : ρ → ρ
  size : ρ → ℕ × ℕ
  crop : ρ → Box → Except PillowError ρ
  resize : ρ → ℕ → ρ
  saveJpeg : ρ → ℕ → List UInt8
  crop_inside : ∀ p b, b.Inside (size p) → ∃ q, crop p b = .ok q

def maxAvatarPixels : ℕ := 50000000

/-- `Image.MAX_IMAGE_PIXELS`, which the avatars module sets. -/
def maxImagePixels : ℕ := maxAvatarPixels

variable {ρ α : Type} (P : Pillow ρ)

/-- `Image.open`: the header, and Pillow's own check of its dimensions. -/
def Pillow.open (raw : List UInt8) : Except PillowError PillowImage :=
  match P.header raw with
  | .error e => .error e.1
  | .ok img =>
    if 2 * maxImagePixels < img.width * img.height then .error .decompressionBomb else .ok img

/-! ## The two checks of an upload -/

/-- An `except` list has the class of an exception; `UnidentifiedImageError` is an `OSError`. -/
def covers (classes : List PillowError) (e : PillowError) : Bool :=
  classes.contains e || (e = .unidentifiedImage && classes.contains .osError)

/-- A step in a `try`; what the list does not cover is an internal error. -/
def attempt (classes : List PillowError) (refusal : Response) (step : Except PillowError α) :
    Except Response α :=
  match step with
  | .ok a => .ok a
  | .error e => .error (if covers classes e then refusal else .serverError)

def notAnImage : Response := .http 400 "Not a valid image"

def openClasses : List PillowError := [.unidentifiedImage, .osError, .valueError]

def loadClasses : List PillowError := [.unidentifiedImage, .osError, .valueError, .decompressionBomb]

/-- The square in the middle of an image. -/
def centerSquare (size : ℕ × ℕ) : Box :=
  let side := min size.1 size.2
  let left := (size.1 - side) / 2
  let top := (size.2 - side) / 2
  ⟨left, top, left + side, top + side⟩

/-- `_process_image`, for `avatar_size_px` and `avatar_jpeg_quality`. -/
def processImage (sizePx quality : ℕ) (raw : List UInt8) : Except Response (List UInt8) := do
  let img ← attempt openClasses notAnImage (P.open raw)
  if maxAvatarPixels < img.width * img.height then throw (.http 400 "Image dimensions too large")
  else
    let pixels ← attempt loadClasses notAnImage ((P.load raw).mapError Subtype.val)
    let rgb := P.convert pixels
    let square ← attempt [] notAnImage (P.crop rgb (centerSquare (P.size rgb)))
    pure (P.saveJpeg (P.resize square sizePx) quality)

/-- The same Pillow behind `_sniff`. -/
def Pillow.env (env : Env) : Env := { env with openImage := P.open }

/-! ## Handled outcomes -/

/-- A value, or an `HTTPException` of the client. -/
def Handled (outcome : Except Response α) : Prop :=
  ∀ r, outcome = .error r → ∃ code detail, r = .http code detail ∧ 400 ≤ code ∧ code < 500

/-- The header declares more than twice the pixel limit. -/
def Bomb (raw : List UInt8) : Prop :=
  ∃ img, P.header raw = .ok img ∧ 2 * maxImagePixels < img.width * img.height

variable {P}

theorem handled_ok (a : α) : Handled (.ok a : Except Response α) := fun _ h => by cases h

theorem handled_http {code : ℕ} {detail : String} (h : 400 ≤ code ∧ code < 500) :
    Handled (.error (.http code detail) : Except Response α) := by
  rintro r ⟨⟩
  exact ⟨code, detail, rfl, h⟩

theorem not_handled_serverError : ¬Handled (.error .serverError : Except Response α) := by
  intro h
  obtain ⟨code, detail, hcode, -⟩ := h _ rfl
  cases hcode

theorem covers_open {e : PillowError} (h : e ≠ .syntaxError) (h' : e ≠ .decompressionBomb) :
    covers openClasses e = true := by
  cases e <;> first | rfl | contradiction

theorem covers_load {e : PillowError} (h : e ≠ .syntaxError) : covers loadClasses e = true := by
  cases e <;> first | rfl | contradiction

theorem centerSquare_inside (size : ℕ × ℕ) : (centerSquare size).Inside size := by
  unfold centerSquare Box.Inside
  dsimp only
  omega

/-- `open` on the three kinds of headers. -/
theorem open_of_bomb {raw : List UInt8} (h : Bomb P raw) : P.open raw = .error .decompressionBomb := by
  obtain ⟨img, hheader, hpixels⟩ := h
  rw [Pillow.open, hheader]
  exact if_pos hpixels

theorem open_of_not_bomb {raw : List UInt8} (h : ¬Bomb P raw) :
    (∃ img, P.open raw = .ok img) ∨
      ∃ e, P.open raw = .error e ∧ e ≠ .syntaxError ∧ e ≠ .decompressionBomb := by
  unfold Pillow.open
  cases hheader : P.header raw with
  | error e => exact .inr ⟨e.1, rfl, e.2⟩
  | ok img => exact .inl ⟨img, if_neg fun hpixels => h ⟨img, hheader, hpixels⟩⟩

theorem processImage_handled_iff (sizePx quality : ℕ) (raw : List UInt8) :
    Handled (processImage P sizePx quality raw) ↔ ¬Bomb P raw := by
  constructor
  · intro hhandled hbomb
    refine not_handled_serverError (α := List UInt8) ?_
    have hrun : processImage P sizePx quality raw = .error .serverError := by
      simp only [processImage, open_of_bomb hbomb]
      rfl
    rwa [← hrun]
  · intro hbomb
    unfold processImage
    rcases open_of_not_bomb hbomb with ⟨img, himg⟩ | ⟨e, he, hsyntax, hnot⟩
    · simp only [himg, attempt, bind, Except.bind]
      split
      next => exact handled_http (by decide)
      next =>
        cases P.load raw with
        | error e =>
          simp only [Except.mapError, covers_load e.2, if_true]
          exact handled_http (by decide)
        | ok pixels =>
          obtain ⟨square, hsquare⟩ :=
            P.crop_inside (P.convert pixels) _ (centerSquare_inside (P.size (P.convert pixels)))
          simp only [Except.mapError, hsquare]
          exact handled_ok _
    · simp only [he, attempt, covers_open hsyntax hnot, if_true, bind, Except.bind]
      exact handled_http (by decide)

theorem sniff_handled_iff (env : Env) (raw : List UInt8) :
    Handled (sniff (P.env env) raw) ↔ pdfMagic.isPrefixOf raw = true ∨ ¬Bomb P raw := by
  have hopen : (P.env env).openImage raw = P.open raw := rfl
  unfold sniff
  rw [hopen]
  by_cases hpdf : pdfMagic.isPrefixOf raw = true
  · simp only [hpdf, if_true, true_or, iff_true]
    exact handled_ok _
  · rw [if_neg hpdf, or_iff_right hpdf]
    constructor
    · intro hhandled hbomb
      rw [open_of_bomb hbomb] at hhandled
      exact not_handled_serverError hhandled
    · intro hbomb
      have hunsupported : Handled (.error unsupported : Except Response String) :=
        handled_http (by decide)
      rcases open_of_not_bomb hbomb with ⟨img, himg⟩ | ⟨e, he, hsyntax, hnot⟩
      · rw [himg]
        dsimp only
        split
        next => exact hunsupported
        next mime _ =>
          split
          next => exact handled_http (by decide)
          next =>
            cases img.verify with
            | some e => exact handled_http (by decide)
            | none => exact handled_ok mime
      · rw [he]
        cases e with
        | unidentifiedImage => exact hunsupported
        | osError => exact hunsupported
        | valueError => exact hunsupported
        | syntaxError => exact absurd rfl hsyntax
        | decompressionBomb => exact absurd rfl hnot

/-- Both checks return or refuse with a 4xx on every upload exactly where its header does not declare
more than twice the pixel limit; `_sniff` also where the bytes begin like a PDF. -/
theorem uploads_handled_iff (P : Pillow ρ) (env : Env) (sizePx quality : ℕ) (raw : List UInt8) :
    (Handled (sniff (P.env env) raw) ∧ Handled (processImage P sizePx quality raw) ↔ ¬Bomb P raw) ∧
      (Handled (sniff (P.env env) raw) ↔ pdfMagic.isPrefixOf raw = true ∨ ¬Bomb P raw) := by
  refine ⟨?_, sniff_handled_iff env raw⟩
  rw [sniff_handled_iff, processImage_handled_iff]
  tauto

/-- A Pillow that finds a PNG of these dimensions in any bytes. -/
def declaring (width height : ℕ) : Pillow Unit where
  header _ := .ok { format := some "PNG", width := width, height := height, verify := none }
  load _ := .ok ()
  convert p := p
  size _ := (width, height)
  crop p _ := .ok p
  resize p _ := p
  saveJpeg _ _ := []
  crop_inside p _ _ := ⟨p, rfl⟩

/-- The first bytes of a PNG file. -/
def pngBytes : List UInt8 := [0x89, 0x50, 0x4e, 0x47, 0x0d, 0x0a, 0x1a, 0x0a]

/-- A header of 20000 × 20000 ends both checks in an internal error. -/
theorem declared_dimensions_crash :
    ¬Handled (processImage (declaring 20000 20000) 256 82 pngBytes) ∧
      ∀ env : Env, ¬Handled (sniff ((declaring 20000 20000).env env) pngBytes) := by
  constructor
  · intro h
    exact not_handled_serverError (α := List UInt8) h
  · intro env h
    exact not_handled_serverError (α := String) h

end WarsawEvents.Files
