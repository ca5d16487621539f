import WarsawEvents.Foundations.Percent
import WarsawEvents.Foundations.Unicode
import WarsawEvents.RowSecurity.Endpoints

/-! # The name of a file in the download header

`_clean_filename` keeps the last part of what the client sent, without control characters, and
`get_file` writes it percent-encoded into `Content-Disposition`. What the header carries decodes to the
stored name, and nothing in it can end the value.
-/

namespace WarsawEvents.Files
set_option autoImplicit false

open RowSecurity (Sess Response UserFile Db userFiles cleanFilename maxFilename getFile ownFile refresh
  select)
open Coupling

/-! ## The header -/

/-- What `urllib.parse.quote` leaves as it is: `_ALWAYS_SAFE` and the slash. -/
def quoteSafe (b : ℕ) : Bool :=
  (0x41 ≤ b && b ≤ 0x5a) || (0x61 ≤ b && b ≤ 0x7a) || (0x30 ≤ b && b ≤ 0x39) ||
    b = 0x5f || b = 0x2e || b = 0x2d || b = 0x7e || b = 0x2f

def quote (s : String) : List Char := Percent.quote quoteSafe (Unicode.utf8 s)

/-- The `Content-Disposition` of an answer that has one. -/
def contentDisposition : Response → Option String
  | .content _ _ disposition filename =>
    some (disposition ++ "; filename*=" ++ "UTF-8''" ++ String.ofList (quote filename))
  | _ => none

/-! ## Stored names -/

structure Clean (name : String) : Prop where
  nonempty : name ≠ ""
  short : name.toList.length ≤ maxFilename
  part : ∀ c ∈ name.toList, c ≠ '/' ∧ c ≠ '\\'
  visible : ∀ c ∈ name.toList, ¬(c.toNat ≤ 0x1f ∨ c.toNat = 0x7f)

theorem mem_lastPart {name : List Char} {c : Char}
    (h : c ∈ (name.reverse.takeWhile fun c => c ≠ '/' && c ≠ '\\').reverse) : c ≠ '/' ∧ c ≠ '\\' := by
  have hkept := List.mem_takeWhile_imp (List.mem_reverse.mp h)
  simpa using hkept

theorem cleanFilename_clean (sent : Option String) : Clean (cleanFilename sent) := by
  unfold cleanFilename
  extract_lets base kept short
  have hshort : ∀ c ∈ short, c ∈ kept := by
    intro c hc
    have hstripped : c ∈ (PyText.strip (String.ofList kept)).toList := List.mem_of_mem_take hc
    simpa using PyText.mem_strip hstripped
  split
  case isTrue => exact ⟨by decide, by decide, by simp, by simp⟩
  case isFalse hne =>
    refine ⟨fun hempty => hne ?_, ?_, fun c hc => ?_, fun c hc => ?_⟩
    · have hnil : short = [] := String.ofList_eq_empty_iff.mp hempty
      rw [hnil]
      rfl
    · rw [String.toList_ofList]
      exact List.length_take_le _ _
    · rw [String.toList_ofList] at hc
      exact mem_lastPart (List.mem_filter.mp (hshort c hc)).1
    · rw [String.toList_ofList] at hc
      simpa using (List.mem_filter.mp (hshort c hc)).2

/-! ## What the header carries -/

/-- A header whose value, after `UTF-8''`, is one parameter value that decodes to the name. -/
structure Carries (download : Bool) (header name : String) : Prop where
  printable : ∀ c ∈ header.toList, Percent.Printable c
  value : ∃ value : List Char,
    header = (if download then "attachment" else "inline") ++ "; filename*=" ++ "UTF-8''" ++
      String.ofList value ∧
    Percent.ValueChars value ∧
    ∃ bytes, Percent.unquote value = some bytes ∧
      Unicode.decode Unicode.start bytes = (Unicode.start, Unicode.points name)

theorem quoteSafe_ascii {b : ℕ} (h : quoteSafe b = true) : b < 0x80 ∧ b ≠ 0x25 := by
  simp only [quoteSafe, Bool.or_eq_true, Bool.and_eq_true, decide_eq_true_eq] at h
  omega

theorem quoteSafe_attrChar : ∀ b < 0x80, quoteSafe b = true → b ≠ 0x2f →
    Percent.attrChar (Char.ofNat b) = true := by
  decide

theorem unquote_quote (s : String) : Percent.unquote (quote s) = some (Unicode.utf8 s) :=
  Percent.unquote_quote (fun _ => Unicode.utf8_lt) fun _ _ => quoteSafe_ascii

/-- The one safe byte that is no value character is the slash, which no stored name has. -/
theorem quote_valueChars {s : String} (h : ∀ c ∈ s.toList, c ≠ '/') : Percent.ValueChars (quote s) := by
  refine Percent.valueChars_quote (fun _ => Unicode.utf8_lt) fun b hb hsafe => ?_
  have hascii : b < 0x80 := (quoteSafe_ascii hsafe).1
  refine quoteSafe_attrChar b hascii hsafe fun hslash => ?_
  obtain ⟨c, hc, hcb⟩ := List.mem_map.mp (Unicode.utf8_ascii hb hascii)
  exact h c hc (Char.toNat_inj.mp (hcb.trans hslash))

theorem carries_of_clean {name : String} (h : Clean name) (download : Bool) (data : List UInt8)
    (mediaType : String) :
    ∃ header, contentDisposition (.content data mediaType
        (if download then "attachment" else "inline") name) = some header ∧
      Carries download header name := by
  have hvalue : Percent.ValueChars (quote name) := quote_valueChars fun c hc => (h.part c hc).1
  refine ⟨_, rfl, ?_, quote name, rfl, hvalue, _, unquote_quote name, Unicode.decode_utf8 name⟩
  intro c hc
  simp only [String.toList_append, String.toList_ofList, List.mem_append] at hc
  have hfront : ∀ c ∈ (if download then "attachment" else "inline").toList, Percent.Printable c := by
    cases download <;> simp [Percent.Printable]
  have hparameter : ∀ c ∈ "; filename*=".toList, Percent.Printable c := by simp [Percent.Printable]
  have hcharset : ∀ c ∈ "UTF-8''".toList, Percent.Printable c := by simp [Percent.Printable]
  rcases hc with ((hc | hc) | hc) | hc
  · exact hfront c hc
  · exact hparameter c hc
  · exact hcharset c hc
  · exact hvalue.printable c hc

/-! ## The download -/

theorem ownFile_found {me fileId : ℕ} {s s' : Sess} {f : UserFile}
    (h : exec (ownFile me fileId) s = (.ok f, s')) : f ∈ s.view.userFiles ∧ f.id = fileId := by
  unfold ownFile at h
  obtain ⟨rows, t, hselect, hrest⟩ := exec_bind_inv h
  obtain ⟨hrows, -⟩ := Prod.mk.inj hselect
  obtain rfl := Except.ok.inj hrows
  split at hrest
  next g hhead =>
    obtain rfl : g = f := Except.ok.inj (Prod.mk.inj hrest).1
    obtain ⟨hmem, hmatch⟩ := List.mem_filter.mp (List.mem_of_mem_head? hhead)
    simp only [Bool.and_eq_true, decide_eq_true_eq] at hmatch
    exact ⟨hmem, hmatch.1.1⟩
  next => cases hrest

theorem getFile_answer {me fileId : ℕ} {download : Bool} {s : Sess} {r : Response}
    (h : (exec (getFile me fileId download) s).1 = .ok r) :
    ∃ f ∈ s.view.userFiles, f.id = fileId ∧ ∃ data,
      r = .content data f.contentType (if download then "attachment" else "inline") f.filename := by
  have hrun : exec (getFile me fileId download) s
      = (.ok r, (exec (getFile me fileId download) s).2) := Prod.ext h rfl
  unfold getFile at hrun
  obtain ⟨f, t, hown, hrest⟩ := exec_bind_inv hrun
  obtain ⟨hf, hid⟩ := ownFile_found hown
  obtain ⟨full, t', -, hanswer⟩ := exec_bind_inv hrest
  obtain rfl := Except.ok.inj (Prod.mk.inj hanswer).1
  exact ⟨f, hf, hid, full.data, rfl⟩

/-- Whatever name the client sent, the stored one is clean, and every download of the file carries
exactly that name in a header nothing can break out of. -/
theorem filename_survives_the_header (sent : Option String) :
    Clean (cleanFilename sent) ∧
    ∀ (me fileId : ℕ) (download : Bool) (s : Sess) (r : Response),
      (∀ f ∈ s.view.userFiles, f.id = fileId → f.filename = cleanFilename sent) →
      (exec (getFile me fileId download) s).1 = .ok r →
      ∃ header, contentDisposition r = some header ∧
        Carries download header (cleanFilename sent) := by
  refine ⟨cleanFilename_clean sent, fun me fileId download s r hstored hrun => ?_⟩
  obtain ⟨f, hf, hid, data, rfl⟩ := getFile_answer hrun
  rw [hstored f hf hid]
  exact carries_of_clean (cleanFilename_clean sent) download data f.contentType

/-- A name with a path, quotes and a letter outside ASCII. -/
def sentName : Option String := some "C:\\b\"ilet\" 50%\u017c.pdf"

def storedFile : UserFile :=
  { id := 5, userId := 1, itemId := 2, filename := cleanFilename sentName, contentType := "application/pdf"
    size := 1, data := [0x25] }

def downloadSession : Sess :=
  { role := .owner, committed := {}, view := { userFiles := [storedFile] } }

theorem filename_survives_the_header_sent :
    Clean (cleanFilename sentName) ∧
      ∃ header, contentDisposition (.content [0x25] "application/pdf" "attachment" storedFile.filename)
          = some header ∧ Carries true header (cleanFilename sentName) :=
  ⟨(filename_survives_the_header sentName).1,
    (filename_survives_the_header sentName).2 1 5 true downloadSession _
      (fun f hf _ => by rw [List.mem_singleton.mp hf]; rfl) rfl⟩

end WarsawEvents.Files
