import Toolpath.Proofs.DocumentKeys
import Toolpath.Proofs.WholeNumbers

/-!
# Profiles as overlays

A document that fits the schema has, under each key, a part of the kind that the profile takes from
there. So a profile that is read is its parent with exactly the parts replaced that the document
has, and has what the schema demands of the parts.
-/

namespace Toolpath

variable {r : TextRule} {p : Profile}

namespace Schema

def Fits (d : Document) (r : Rule) : Prop := ∃ path, check path d r = []

def Keyed (d : Document) (keys : List Text) : Prop :=
  ∃ entries, d = .table entries ∧ ∀ e ∈ entries, e.1 ∈ keys

variable {d v : Document} {fields : List (Text × Rule)} {required : List Text} {key : Text}

theorem located_eq_nil {path : Text} {message : Option Text} :
    located path message = [] ↔ message = none := by
  cases message <;> simp [located]

theorem Fits.text (h : Fits d (.text r)) : ∃ t, d = .text t ∧ textFault r t = none := by
  obtain ⟨path, h⟩ := h
  cases d with
  | text t => exact ⟨t, rfl, located_eq_nil.mp (by rwa [check] at h)⟩
  | _ => simp [check] at h

theorem Fits.choice {options : List Text} (h : Fits d (.choice options)) :
    ∃ t, d = .text t ∧ t ∈ options := by
  obtain ⟨path, h⟩ := h
  cases d with
  | text t => exact ⟨t, rfl, by simpa [check] using h⟩
  | _ => simp [check] at h

theorem Fits.flag (h : Fits d .flag) : ∃ b, d = .flag b := by
  obtain ⟨path, h⟩ := h
  cases d with
  | flag b => exact ⟨b, rfl⟩
  | _ => simp [check] at h

theorem Fits.whole {least : Nat} (h : Fits d (.whole least)) :
    ∃ x, d = .number x ∧ isWhole x = true ∧ ¬x < Number.ofNat false least := by
  obtain ⟨path, h⟩ := h
  cases d with
  | number x =>
    exact ⟨x, rfl, Profile.isWhole_of_wholeFault (located_eq_nil.mp (by rwa [check] at h))⟩
  | _ => simp [check] at h

theorem Fits.list {item : Rule} (h : Fits d (.list item)) :
    ∃ items, d = .list items ∧ ∀ x ∈ items, Fits x item := by
  obtain ⟨path, h⟩ := h
  cases d with
  | list items =>
    rw [check, List.flatMap_eq_nil_iff] at h
    refine ⟨items, rfl, fun x hx => ?_⟩
    obtain ⟨i, hi, rfl⟩ := List.mem_iff_getElem.mp hx
    exact ⟨_, h (items[i], i) (by simp [List.mem_zipIdx_iff_getElem?])⟩
  | _ => simp [check] at h

theorem Fits.field {r : Rule} (h : Fits d (.record fields required))
    (hkey : fields.lookup key = some r) (hv : d.get? key = some v) : Fits v r := by
  obtain ⟨path, h⟩ := h
  cases d with
  | table entries =>
    rw [check, List.append_eq_nil_iff] at h
    exact ⟨_, check_of_field h.2 (mem_of_lookup hkey) hv⟩
  | _ => cases hv

theorem recordFaults_eq_nil {names keys : List Text} :
    recordFaults names required keys = [] ↔
      (∀ key ∈ required, key ∈ keys) ∧ ∀ key ∈ keys, key ∈ names := by
  have hsort : Text.sort (keys.filter fun k => !names.contains k) = [] ↔
      ∀ key ∈ keys, key ∈ names := by
    rw [Text.sort, ← List.length_eq_zero_iff, List.length_mergeSort, List.length_eq_zero_iff]
    simp
  rw [recordFaults, List.append_eq_nil_iff, ← hsort]
  simp

theorem Fits.keys (h : Fits d (.record fields required)) :
    Keyed d (fields.map Prod.fst) ∧ ∀ key ∈ required, ∃ v, d.get? key = some v := by
  obtain ⟨path, h⟩ := h
  cases d with
  | table entries =>
    rw [check, List.append_eq_nil_iff, List.map_eq_nil_iff] at h
    obtain ⟨hmissing, hextra⟩ := recordFaults_eq_nil.mp h.1
    refine ⟨⟨entries, rfl, fun e he => hextra _ (List.mem_map_of_mem he)⟩, fun key hkey => ?_⟩
    obtain ⟨e, he, rfl⟩ := List.mem_map.mp (hmissing key hkey)
    cases hv : entries.lookup e.1 with
    | none => exact absurd (List.lookup_eq_none_iff.mp hv e he) (by simp)
    | some v => exact ⟨v, hv⟩
  | _ => simp [check] at h

theorem Fits.empty : Fits (.table []) (.record fields []) := by
  have hfields : checkFields [] [] fields = [] := by
    induction fields with
    | nil => rfl
    | cons f fields ih => rw [checkFields, List.lookup_nil, ih]; rfl
  exact ⟨[], by simp [check, recordFaults, Text.sort, hfields]⟩

theorem Fits.part {fs : List (Text × Rule)} (h : Fits d (.record fields required)) (key : Text)
    (hkey : fields.lookup key = some (.record fs [])) :
    Fits (Profile.partAt d key) (.record fs []) := by
  unfold Profile.partAt
  cases hv : d.get? key with
  | none => exact .empty
  | some v => exact h.field hkey hv

end Schema

/-! ## What a document says -/

def LineEnding.word : LineEnding → Text
  | lf => "lf"
  | crlf => "crlf"

def CycleStyle.word : CycleStyle → Text
  | call => "call"
  | code => "gcode"

def CommentKind.word : CommentKind → Text
  | parentheses => "parentheses"
  | semicolon => "semicolon"
  | both => "both"

namespace Profile

open Schema (Fits Keyed)

/-- The new value is what the document says under a key; without the key it is the old one. -/
def Laid {α : Type} (d : Document) (key : Text) (tells : Document → α → Prop) (old new : α) :
    Prop :=
  match d.get? key with
  | some v => tells v new
  | none => new = old

def SaysText (v : Document) (t : Text) : Prop := v = .text t

def SaysFlag (v : Document) (b : Bool) : Prop := v = .flag b

def SaysWhole (v : Document) (i : Int) : Prop := ∃ x, v = .number x ∧ Spells x i

def SaysLines (v : Document) (ts : List Text) : Prop := v = .list (ts.map .text)

def SaysCode (v : Document) (code : Option Text) : Prop := ∃ t, v = .text t ∧ code = some t

def SaysFormat (v : Document) (format : Option RegisterFormat) : Prop :=
  ∃ t b, v.get? "format" = some (.text t) ∧ v.get? "modal" = some (.flag b) ∧ format = some ⟨t, b⟩

def SaysParent (v : Document) (p : Profile) : Prop := p ∈ builtins ∧ v = .text p.name

structure NumberingLaid (d : Document) (old new : BlockNumbering) : Prop where
  keys : Keyed d ["enabled", "prefix", "start", "increment"]
  enabled : Laid d "enabled" SaysFlag old.enabled new.enabled
  address : Laid d "prefix" SaysText old.address new.address
  start : Laid d "start" SaysWhole old.start new.start
  increment : Laid d "increment" SaysWhole old.increment new.increment

structure CommentsLaid (d : Document) (old new : Comments) : Prop where
  keys : Keyed d ["type", "prefix", "suffix", "semicolonPrefix", "maxLength", "transliterate"]
  kind : Laid d "type" (fun v k => SaysText v k.word) old.kind new.kind
  opening : Laid d "prefix" SaysText old.opening new.opening
  closing : Laid d "suffix" SaysText old.closing new.closing
  semicolonOpening : Laid d "semicolonPrefix" SaysText old.semicolonOpening new.semicolonOpening
  maxLength : Laid d "maxLength" SaysWhole old.maxLength new.maxLength
  transliterate : Laid d "transliterate" SaysFlag old.transliterate new.transliterate

structure TemplatesLaid (d : Document) (old new : Templates) : Prop where
  keys : Keyed d ["enabled", "header", "footer"]
  enabled : Laid d "enabled" SaysFlag old.enabled new.enabled
  header : Laid d "header" SaysLines old.header new.header
  footer : Laid d "footer" SaysLines old.footer new.footer

/-- The profile is its parent with what the document says in place of what was there: one by one,
but for the lines of a template, and key by key in the tables of registers and codes. -/
structure Overlaid (d : Document) (parent p : Profile) : Prop where
  keys : Keyed d ["extends", "name", "version", "machine", "separator", "lineEnding",
    "cancelMarker", "cycleStyle", "arcRadius", "registers", "blockNumbering", "comments", "codes",
    "templates"]
  parentName : p.parentName = []
  name : Laid d "name" SaysText parent.name p.name
  version : Laid d "version" SaysText parent.version p.version
  machine : Laid d "machine" SaysText parent.machine p.machine
  separator : Laid d "separator" SaysText parent.separator p.separator
  lineEnding : Laid d "lineEnding" (fun v e => SaysText v e.word) parent.lineEnding p.lineEnding
  cancelMarker : Laid d "cancelMarker" SaysText parent.cancelMarker p.cancelMarker
  cycleStyle : Laid d "cycleStyle" (fun v c => SaysText v c.word) parent.cycleStyle p.cycleStyle
  arcRadius : Laid d "arcRadius" SaysFlag parent.arcRadius p.arcRadius
  registers : ∀ name, Laid (partAt d "registers") name SaysFormat (parent.registers.lookup name)
    (p.registers.lookup name)
  numbering : NumberingLaid (partAt d "blockNumbering") parent.numbering p.numbering
  comments : CommentsLaid (partAt d "comments") parent.comments p.comments
  codes : ∀ name, Laid (partAt d "codes") name SaysCode (parent.codes.lookup name)
    (p.codes.lookup name)
  templates : TemplatesLaid (partAt d "templates") parent.templates p.templates

def IsCode (t : Text) : Prop :=
  ∃ letter digits, t = letter :: digits ∧ Text.isUpper letter = true ∧ digits ≠ [] ∧
    ∀ b ∈ digits, Text.isDigit b = true ∨ b = Text.point

/-- What a machine relies on: a code for every function, formats that can be used, and numbers
in their ranges. -/
structure Sound (p : Profile) : Prop where
  codes : ∀ f : Function, IsCode (p.code f)
  codeKeys : (p.codes.map Prod.fst).Nodup
  registers : ∀ e ∈ p.registers, (NumberFormat.parse? e.2.format).isSome = true
  registerKeys : (p.registers.map Prod.fst).Nodup
  start : 0 ≤ p.numbering.start
  increment : 1 ≤ p.numbering.increment
  maxLength : 0 ≤ p.comments.maxLength
  lineEnding : p.lineEnding.word ∈ (["lf", "crlf"] : List Text)
  cycleStyle : p.cycleStyle.word ∈ (["call", "gcode"] : List Text)

theorem map_filterMap_text {items : List Document} (h : ∀ x ∈ items, ∃ t, x = .text t) :
    (items.filterMap fun x =>
      match x with
      | .text t => some t
      | _ => none).map .text = items := by
  induction items with
  | nil => rfl
  | cons x items ih =>
    obtain ⟨⟨t, rfl⟩, hrest⟩ := List.forall_mem_cons.mp h
    exact congrArg _ (ih hrest)

section
variable {d : Document} {fields : List (Text × Rule)} {required : List Text} {key : Text}
  (h : Fits d (.record fields required))

include h

theorem laid_text (hkey : fields.lookup key = some (.text r)) (old : Text) :
    Laid d key SaysText old (textAt d key old) := by
  unfold Laid textAt
  cases hv : d.get? key with
  | none => rfl
  | some v =>
    obtain ⟨t, rfl, -⟩ := (h.field hkey hv).text
    rfl

theorem laid_flag (hkey : fields.lookup key = some .flag) (old : Bool) :
    Laid d key SaysFlag old (flagAt d key old) := by
  unfold Laid flagAt
  cases hv : d.get? key with
  | none => rfl
  | some v =>
    obtain ⟨b, rfl⟩ := (h.field hkey hv).flag
    rfl

theorem laid_lines (hkey : fields.lookup key = some (.list (.text r)))
    (old : List Text) : Laid d key SaysLines old (linesAt d key old) := by
  unfold Laid linesAt
  cases hv : d.get? key with
  | none => rfl
  | some v =>
    obtain ⟨items, rfl, hitems⟩ := (h.field hkey hv).list
    have htexts : ∀ x ∈ items, ∃ t, x = .text t :=
      fun x hx => (hitems x hx).text.imp fun _ => And.left
    exact congrArg Document.list (map_filterMap_text htexts).symm

theorem laid_whole {least : Nat} (hleast : least ≤ 1)
    (hkey : fields.lookup key = some (.whole least))
    {old new : Int} (hnew : wholeAt d key old = .ok new) :
    Laid d key SaysWhole old new ∧ (least ≤ old → least ≤ new) := by
  unfold Laid
  unfold wholeAt at hnew
  cases hv : d.get? key with
  | none =>
    rw [hv] at hnew
    cases hnew
    exact ⟨rfl, id⟩
  | some v =>
    obtain ⟨x, rfl, hwhole, hlt⟩ := (h.field hkey hv).whole
    rw [hv] at hnew
    dsimp only at hnew
    split at hnew
    next i hi =>
      cases hnew
      exact ⟨⟨x, rfl, spells_of_integer? hwhole hi⟩, fun _ => least_le hleast hwhole hlt hi⟩
    · cases hnew

theorem laid_choice {α : Type} {options : List Text}
    (hkey : fields.lookup key = some (.choice options))
    {word : α → Text} {read : Text → α} (hread : ∀ t ∈ options, word (read t) = t) (old : α) :
    Laid d key (fun v a => SaysText v (word a)) old
      (match d.get? key with
      | some (.text t) => read t
      | _ => old) := by
  unfold Laid
  cases hv : d.get? key with
  | none => rfl
  | some v =>
    obtain ⟨t, rfl, ht⟩ := (h.field hkey hv).choice
    exact congrArg Document.text (hread t ht).symm

end

theorem get?_partAt (d : Document) (key name : Text) :
    (partAt d key).get? name = (entriesAt d key).lookup name := by
  unfold partAt entriesAt
  cases d.get? key with
  | none => rfl
  | some v => cases v <;> rfl

theorem nodup_entriesAt {d : Document} (h : d.Distinct) (key : Text) :
    ((entriesAt d key).map Prod.fst).Nodup := by
  unfold entriesAt
  split
  next entries hv =>
    cases h.get? hv with
    | table keys _ => exact keys
  · exact List.nodup_nil

section
variable {α : Type} {step : List (Text × α) → Text × Document → List (Text × α)}
  (value : Document → α) {es : List (Text × Document)}
  (hstep : ∀ e ∈ es, ∀ t, step t e = setEntry e.1 (value e.2) t)

include hstep

theorem lookup_foldl_setEntry (hkeys : (es.map Prod.fst).Nodup) (old : List (Text × α))
    (name : Text) :
    (es.foldl step old).lookup name = ((es.lookup name).map value).or (old.lookup name) := by
  induction es generalizing old with
  | nil => rfl
  | cons e es ih =>
    obtain ⟨key, v⟩ := e
    obtain ⟨he, hrest⟩ := List.forall_mem_cons.mp hstep
    obtain ⟨hnew, hkeys⟩ := List.nodup_cons.mp hkeys
    rw [List.foldl_cons, ih hrest hkeys, he, lookup_setEntry]
    by_cases hname : name = key
    · -- the keys are distinct, so no later entry replaces this one
      subst hname
      have hnone : es.lookup name = none :=
        List.lookup_eq_none_iff.mpr fun f hf => by
          simpa using fun heq : name = f.1 => hnew (List.mem_map.mpr ⟨f, hf, heq.symm⟩)
      simp [hnone]
    · simp [hname, List.lookup_cons, beq_false_of_ne hname]

theorem nodup_foldl_setEntry {old : List (Text × α)} (hold : (old.map Prod.fst).Nodup) :
    ((es.foldl step old).map Prod.fst).Nodup := by
  induction es generalizing old with
  | nil => exact hold
  | cons e es ih =>
    obtain ⟨he, hrest⟩ := List.forall_mem_cons.mp hstep
    rw [List.foldl_cons, he]
    exact ih hrest (nodup_setEntry hold e.1 _)

theorem forall_foldl_setEntry {P : α → Prop} (hes : ∀ e ∈ es, P (value e.2)) {old : List (Text × α)}
    (hold : ∀ e ∈ old, P e.2) : ∀ e ∈ es.foldl step old, P e.2 := by
  induction es generalizing old with
  | nil => exact hold
  | cons e es ih =>
    obtain ⟨he, hrest⟩ := List.forall_mem_cons.mp hstep
    obtain ⟨hvalue, hvalues⟩ := List.forall_mem_cons.mp hes
    rw [List.foldl_cons, he]
    refine ih hrest hvalues fun f hf => ?_
    obtain rfl | hf := mem_setEntry hf
    · exact hvalue
    · exact hold f hf

end

section
variable {d : Document} (hd : problems d = [])

include hd

theorem fits_schema : Fits d schema := by
  have hlength : (problems d).length = (Schema.check [] d schema).length := List.length_mergeSort _
  rw [hd] at hlength
  exact ⟨[], List.eq_nil_of_length_eq_zero hlength.symm⟩

theorem register_entry {e : Text × Document} (he : e ∈ entriesAt d "registers") :
    ∃ t b, e.2.get? "format" = some (.text t) ∧ e.2.get? "modal" = some (.flag b) ∧
      (NumberFormat.parse? t).isSome = true := by
  have hrule : Fits e.2 registerRule := ⟨_, (entry_checked hd hasTable_registers he).2⟩
  obtain ⟨v, hv⟩ := hrule.keys.2 "format" (by simp)
  obtain ⟨w, hw⟩ := hrule.keys.2 "modal" (by simp)
  obtain ⟨t, rfl, ht⟩ := (hrule.field rfl hv).text
  obtain ⟨b, rfl⟩ := (hrule.field rfl hw).flag
  refine ⟨t, b, hv, hw, ?_⟩
  simpa [Schema.textFault, Option.isSome_iff_ne_none] using ht

theorem code_entry {e : Text × Document} (he : e ∈ entriesAt d "codes") :
    ∃ t, e.2 = .text t ∧ Schema.isFunctionCode t = true := by
  have hrule : Fits e.2 (.text .functionCode) := ⟨_, (entry_checked hd hasTable_codes he).2⟩
  obtain ⟨t, ht, hfault⟩ := hrule.text
  exact ⟨t, ht, by simpa [Schema.textFault] using hfault⟩

def formatOf (v : Document) : RegisterFormat := ⟨textAt v "format" [], flagAt v "modal" false⟩

def codeOf : Document → Text
  | .text t => t
  | _ => []

theorem codes_step : ∀ e ∈ entriesAt d "codes", ∀ cs : List (Text × Text),
    (match e.2 with
      | .text t => setEntry e.1 t cs
      | _ => cs) = setEntry e.1 (codeOf e.2) cs := by
  intro e he cs
  obtain ⟨t, ht, -⟩ := code_entry hd he
  rw [ht]
  rfl

theorem laid_registers (hkeys : d.Distinct) (old : List (Text × RegisterFormat)) (name : Text) :
    Laid (partAt d "registers") name SaysFormat (old.lookup name)
      ((registersAt d old).lookup name) := by
  have hlookup : (registersAt d old).lookup name =
      (((entriesAt d "registers").lookup name).map formatOf).or (old.lookup name) :=
    lookup_foldl_setEntry formatOf (fun _ _ _ => rfl) (nodup_entriesAt hkeys _) old name
  unfold Laid
  rw [get?_partAt, hlookup]
  cases hv : (entriesAt d "registers").lookup name with
  | none => rfl
  | some v =>
    obtain ⟨t, b, ht, hb, -⟩ := register_entry hd (mem_of_lookup hv)
    exact ⟨t, b, ht, hb, by simp [formatOf, textAt, flagAt, ht, hb]⟩

theorem lookup_codesAt (hkeys : d.Distinct) (old : List (Text × Text)) (name : Text) :
    (codesAt d old).lookup name =
      (((entriesAt d "codes").lookup name).map codeOf).or (old.lookup name) :=
  lookup_foldl_setEntry codeOf (codes_step hd) (nodup_entriesAt hkeys _) old name

theorem laid_codes (hkeys : d.Distinct) (old : List (Text × Text)) (name : Text) :
    Laid (partAt d "codes") name SaysCode (old.lookup name) ((codesAt d old).lookup name) := by
  unfold Laid
  rw [get?_partAt, lookup_codesAt hd hkeys]
  cases hv : (entriesAt d "codes").lookup name with
  | none => rfl
  | some v =>
    obtain ⟨t, rfl, -⟩ := code_entry hd (mem_of_lookup hv)
    exact ⟨t, rfl, rfl⟩

theorem numberingAt_ok {old new : BlockNumbering} (h : numberingAt d old = .ok new) :
    NumberingLaid (partAt d "blockNumbering") old new ∧ (0 ≤ old.start → 0 ≤ new.start) ∧
      (1 ≤ old.increment → 1 ≤ new.increment) := by
  have hpart := (fits_schema hd).part "blockNumbering" rfl
  obtain ⟨start, hstart, h⟩ := bind_ok.mp h
  obtain ⟨increment, hincrement, h⟩ := bind_ok.mp h
  cases h
  obtain ⟨hstart, hstart0⟩ := laid_whole hpart zero_le_one rfl hstart
  obtain ⟨hincrement, hincrement1⟩ := laid_whole hpart le_rfl rfl hincrement
  exact ⟨⟨hpart.keys.1, laid_flag hpart rfl _, laid_text hpart rfl _, hstart,
    hincrement⟩, hstart0, hincrement1⟩

theorem commentsAt_ok {old new : Comments} (h : commentsAt d old = .ok new) :
    CommentsLaid (partAt d "comments") old new ∧ (0 ≤ old.maxLength → 0 ≤ new.maxLength) := by
  have hpart := (fits_schema hd).part "comments" rfl
  obtain ⟨maxLength, hmax, h⟩ := bind_ok.mp h
  cases h
  obtain ⟨hmax, hmax0⟩ := laid_whole hpart zero_le_one rfl hmax
  exact ⟨⟨hpart.keys.1, laid_choice hpart rfl (by decide) _, laid_text hpart rfl _,
    laid_text hpart rfl _, laid_text hpart rfl _, hmax, laid_flag hpart rfl _⟩,
    hmax0⟩

theorem laid_templates (old : Templates) :
    TemplatesLaid (partAt d "templates") old (templatesAt d old) := by
  have hpart := (fits_schema hd).part "templates" rfl
  exact ⟨hpart.keys.1, laid_flag hpart rfl _, laid_lines hpart rfl _,
    laid_lines hpart rfl _⟩

theorem overlaid_of_overlay (hkeys : d.Distinct) {parent p : Profile}
    (h : parent.overlay d = .ok p) : Overlaid d parent p := by
  have hfits := fits_schema hd
  obtain ⟨numbering, hnumbering, h⟩ := bind_ok.mp h
  obtain ⟨comments, hcomments, h⟩ := bind_ok.mp h
  cases h
  exact
    { keys := hfits.keys.1
      parentName := rfl
      name := laid_text hfits rfl _
      version := laid_text hfits rfl _
      machine := laid_text hfits rfl _
      separator := laid_text hfits rfl _
      lineEnding := laid_choice hfits rfl (by decide) _
      cancelMarker := laid_text hfits rfl _
      cycleStyle := laid_choice hfits rfl (by decide) _
      arcRadius := laid_flag hfits rfl _
      registers := laid_registers hd hkeys _
      numbering := (numberingAt_ok hd hnumbering).1
      comments := (commentsAt_ok hd hcomments).1
      codes := laid_codes hd hkeys _
      templates := laid_templates hd _ }

end

/-! ## What every profile has -/

theorem isCode_of_isFunctionCode {t : Text} (h : Schema.isFunctionCode t = true) : IsCode t := by
  cases t with
  | nil => cases h
  | cons b t =>
    simp only [Schema.isFunctionCode, Bool.and_eq_true, decide_eq_true_eq, List.all_eq_true,
      Bool.or_eq_true] at h
    exact ⟨b, t, rfl, h.1.1, h.1.2, h.2⟩

theorem isCode_of_usual (h : p.codes = Function.all.map fun f => (f.name, f.usualCode))
    (f : Function) : IsCode (p.code f) := by
  rw [code, codeNamed, h]
  apply isCode_of_isFunctionCode
  cases f <;> decide

theorem lineEnding_word (e : LineEnding) : e.word ∈ (["lf", "crlf"] : List Text) := by
  cases e <;> decide

theorem cycleStyle_word (c : CycleStyle) : c.word ∈ (["call", "gcode"] : List Text) := by
  cases c <;> decide

theorem generic_sound : Sound {} :=
  ⟨isCode_of_usual rfl, by decide, by decide, by decide, by decide, by decide, by decide, by decide,
    by decide⟩

theorem builtins_sound : ∀ p ∈ builtins, p.Sound := by
  intro p hp
  simp only [builtins, List.mem_cons, List.not_mem_nil, or_false] at hp
  obtain rfl | rfl | rfl := hp <;>
    exact ⟨isCode_of_usual rfl, by decide, by decide, by decide, by decide, by decide, by decide,
      by decide, by decide⟩

theorem isCode_codesAt {d : Document} (hd : problems d = []) (hkeys : d.Distinct)
    {old : List (Text × Text)} {name : Text} (hold : IsCode ((old.lookup name).getD [])) :
    IsCode (((codesAt d old).lookup name).getD []) := by
  rw [lookup_codesAt hd hkeys]
  cases hv : (entriesAt d "codes").lookup name with
  | none => exact hold
  | some v =>
    obtain ⟨t, rfl, ht⟩ := code_entry hd (mem_of_lookup hv)
    exact isCode_of_isFunctionCode ht

theorem parse?_registersAt {d : Document} (hd : problems d = [])
    {old : List (Text × RegisterFormat)}
    (hold : ∀ e ∈ old, (NumberFormat.parse? e.2.format).isSome = true) :
    ∀ e ∈ registersAt d old, (NumberFormat.parse? e.2.format).isSome = true := by
  refine forall_foldl_setEntry formatOf (P := fun f => (NumberFormat.parse? f.format).isSome = true)
    (fun _ _ _ => rfl) (fun e he => ?_) hold
  obtain ⟨t, b, ht, -, hparse⟩ := register_entry hd he
  simpa [formatOf, textAt, ht] using hparse

theorem sound_of_overlay {d : Document} (hd : problems d = []) (hkeys : d.Distinct)
    {parent p : Profile} (hparent : parent.Sound) (h : parent.overlay d = .ok p) : p.Sound := by
  obtain ⟨numbering, hnumbering, h⟩ := bind_ok.mp h
  obtain ⟨comments, hcomments, h⟩ := bind_ok.mp h
  obtain ⟨-, hstart, hincrement⟩ := numberingAt_ok hd hnumbering
  cases h
  exact
    { codes := fun f => isCode_codesAt hd hkeys (hparent.codes f)
      codeKeys := nodup_foldl_setEntry codeOf (codes_step hd) hparent.codeKeys
      registers := parse?_registersAt hd hparent.registers
      registerKeys := nodup_foldl_setEntry formatOf (fun _ _ _ => rfl) hparent.registerKeys
      start := hstart hparent.start
      increment := hincrement hparent.increment
      maxLength := (commentsAt_ok hd hcomments).2 hparent.maxLength
      lineEnding := lineEnding_word _
      cycleStyle := cycleStyle_word _ }

theorem builtin_ok {name : Text} {q : Profile} (h : builtin name = .ok q) :
    q ∈ builtins ∧ q.name = name := by
  unfold builtin at h
  split at h
  next hfind =>
    cases h
    exact ⟨List.mem_of_find?_eq_some hfind, by simpa using List.find?_some hfind⟩
  · cases h

theorem parent_ok {d : Document} (hd : problems d = []) {q : Profile} (h : parent d = .ok q) :
    Laid d "extends" SaysParent {} q ∧ q.Sound := by
  unfold Laid
  unfold parent at h
  cases hv : d.get? "extends" with
  | none =>
    rw [hv] at h
    cases h
    exact ⟨rfl, generic_sound⟩
  | some v =>
    obtain ⟨name, rfl, -⟩ := ((fits_schema hd).field rfl hv).text
    rw [hv] at h
    dsimp only at h
    split at h
    next hq =>
      cases h
      obtain ⟨hmem, rfl⟩ := builtin_ok hq
      exact ⟨⟨hmem, rfl⟩, builtins_sound q hmem⟩
    · cases h

theorem parse_ok {data source : Text} {format : DocumentFormat}
    (h : parse data format source = .ok p) :
    ∃ d q, document data format = .ok d ∧ problems d = [] ∧ parent d = .ok q ∧
      q.overlay d = .ok p := by
  unfold parse at h
  split at h
  · cases h
  next d hdocument =>
    split at h
    next hd =>
      split at h
      next hq =>
        cases h
        obtain ⟨q, hparent, hover⟩ := bind_ok.mp hq
        exact ⟨d, q, hdocument, hd, hparent, hover⟩
      · cases h
    · cases h

/-- A profile that is read is its parent with what the document says in place of what was there,
and it is sound. -/
theorem profile_overlaid {data source : Text} {format : DocumentFormat} {p : Profile}
    (h : parse data format source = .ok p) :
    ∃ d parent, document data format = .ok d ∧ Laid d "extends" SaysParent {} parent ∧
      Overlaid d parent p ∧ p.Sound := by
  obtain ⟨d, parent, hdocument, hd, hparent, hover⟩ := parse_ok h
  have hkeys := document_distinct hdocument
  obtain ⟨hextends, hsound⟩ := parent_ok hd hparent
  exact ⟨d, parent, hdocument, hextends, overlaid_of_overlay hd hkeys hover,
    sound_of_overlay hd hkeys hsound hover⟩

theorem parse_of_toOption {data : Text} (source : Text) {format : DocumentFormat}
    (h : (parse data format source).toOption = some p) : parse data format source = .ok p := by
  cases hparse : parse data format source with
  | error e => simp [hparse, Except.toOption] at h
  | ok q =>
    rw [hparse] at h
    exact congrArg _ (Option.some.inj h)

theorem profile_overlaid_haas : ∃ d parent,
    document
      ("\x7b\"extends\":\"haas\",\"blockNumbering\":\x7b\"increment\":5\x7d," ++
        "\"codes\":\x7b\"dwell\":\"G4.1\"\x7d\x7d") .json = .ok d ∧
    Laid d "extends" SaysParent {} parent ∧
    Overlaid d parent
      { haas with
        numbering := { haas.numbering with increment := 5 }
        codes := setEntry "dwell" "G4.1" haas.codes } ∧
    Sound
      { haas with
        numbering := { haas.numbering with increment := 5 }
        codes := setEntry "dwell" "G4.1" haas.codes } :=
  profile_overlaid (parse_of_toOption [] (by decide +kernel))

/-- From `2 ^ 53` on a whole number may be taken over changed: the shortest digits of the double
`2 ^ 60` spell another integer. -/
theorem large_start_respelled : ∃ d x p,
    document "\x7b\"blockNumbering\":\x7b\"start\":1152921504606846976\x7d\x7d" .json = .ok d ∧
    (partAt d "blockNumbering").get? "start" = some (.number x) ∧
    Number.value x = 1152921504606846976 ∧
    parse "\x7b\"blockNumbering\":\x7b\"start\":1152921504606846976\x7d\x7d" .json [] = .ok p ∧
    p.numbering.start = 1152921504606847000 := by
  have hparts : Number.magnitude (Number.ofNat false 1152921504606846976) =
      .finite ⟨false, 4503599627370496, 8⟩ := by decide +kernel
  refine ⟨_, Number.ofNat false 1152921504606846976,
    { numbering := { start := 1152921504606847000 } }, rfl, rfl, ?_,
    parse_of_toOption [] (by decide +kernel), rfl⟩
  rw [Number.value_eq hparts, if_neg Bool.false_ne_true, Number.signed]
  norm_num

end Profile
end Toolpath
