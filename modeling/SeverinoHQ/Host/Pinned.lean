/-
# What the pin makes of an override

The pin goes through the lines of an override once. Where it takes for a key the line a reader
does, at each of the three mappings on the way to the image, what it prints is the override
with one entry put in place.
-/

import SeverinoHQ.Host.Override
import SeverinoHQ.Math.BlockMapping
import Mathlib.Tactic.SplitIfs

namespace SeverinoHQ.Host

open SeverinoHQ.Math
open SeverinoHQ.Math.Bytes (ascii splitSeq)
open SeverinoHQ.Math.BlockMapping

theorem indent_eq (line : Bytes) : indent line = width line := rfl

theorem blank_eq (line : Bytes) : blank line = isBlank line := rfl

/-! ## Lines and texts -/

/-- The lines `pin` takes a text as. -/
def linesOf (text : Bytes) : List Bytes :=
  if [10].isSuffixOf text ∨ text = [] then (splitSeq [10] text).dropLast else splitSeq [10] text

def unlines (lines : List Bytes) : Bytes := lines.flatMap fun line => line ++ [10]

theorem unlines_append (first second : List Bytes) :
    unlines (first ++ second) = unlines first ++ unlines second := List.flatMap_append

/-! ## What is printed -/

/-- The line `emitImage` prints. -/
def imageLine (image : Bytes) (width : Nat) : Bytes :=
  List.replicate width 32 ++ ascii "image: " ++ image

/-- The line `emitService` prints of the service. -/
def serviceLine (service : Bytes) (width : Nat) : Bytes :=
  List.replicate width 32 ++ [34] ++ service ++ [34] ++ ascii ":"

/-- A line that is refused where it stands above `services:`. -/
def isFlow (line : Bytes) : Bool :=
  !isBlank line && ((ascii "\x7b").isPrefixOf (line.drop (width line)) ||
    (ascii "[").isPrefixOf (line.drop (width line)))

namespace Pinner

theorem print_eq (pinner : Pinner) (line : Bytes) :
    pinner.print line = { pinner with out := pinner.out ++ unlines [line] } := by
  simp [print, unlines]

theorem emitImage_eq (pinner : Pinner) (width : Nat) :
    pinner.emitImage width =
      { pinner with out := pinner.out ++ unlines [imageLine pinner.image width], done := true } := by
  rw [emitImage, print_eq, imageLine]

theorem emitService_eq (pinner : Pinner) (width : Nat) :
    pinner.emitService width =
      { pinner with
        out := pinner.out ++
          unlines [serviceLine pinner.service width, imageLine pinner.image (width * 2)]
        done := true } := by
  rw [emitService, print_eq, emitImage_eq, serviceLine]
  simp [unlines]

/-- What is printed of lines in all. -/
def ends (pinner : Pinner) (lines : List Bytes) : Option Bytes :=
  (lines.foldlM Pinner.line pinner).map fun pinner => pinner.finished.out

theorem ends_append {pinner after : Pinner} {first : List Bytes}
    (h : first.foldlM Pinner.line pinner = some after) (second : List Bytes) :
    pinner.ends (first ++ second) = after.ends second := by
  rw [ends, List.foldlM_append, h]
  rfl

theorem ends_cons (pinner : Pinner) (line : Bytes) (lines : List Bytes) :
    pinner.ends (line :: lines) = (pinner.line line).bind fun after => after.ends lines := by
  rw [ends, List.foldlM_cons]
  cases pinner.line line <;> rfl

theorem line_of_blank (pinner : Pinner) {line : Bytes} (h : isBlank line = true) :
    pinner.line line = some { pinner with out := pinner.out ++ unlines [line] } := by
  rw [Pinner.line, if_pos (by simp [blank_eq, h]), print_eq]

/-- Once the image is set, every line is printed as it is. -/
theorem ends_of_done {pinner : Pinner} (h : pinner.done = true) (lines : List Bytes) :
    pinner.ends lines = some (pinner.out ++ unlines lines) := by
  induction lines generalizing pinner with
  | nil => simp [ends, finished, h, unlines]
  | cons line lines ih =>
      have hrest := @ih { pinner with out := pinner.out ++ unlines [line] } h
      rw [ends_cons, Pinner.line, if_pos (by simp [h]), print_eq, Option.bind_some, hrest]
      simp [unlines]

variable (service image : Bytes)

/-- Above `services:`. -/
def seekingServices (out : Bytes) : Pinner := ⟨service, image, false, false, false, 0, 0, out⟩

/-- Below `services:`, above the service. -/
def seekingService (serviceWidth : Nat) (out : Bytes) : Pinner :=
  ⟨service, image, false, true, false, serviceWidth, 0, out⟩

/-- Below the service, above its image. -/
def seekingImage (serviceWidth childWidth : Nat) (out : Bytes) : Pinner :=
  ⟨service, image, false, true, true, serviceWidth, childWidth, out⟩

variable {service image}

/-! ## Above `services:` -/

theorem line_seekingServices {line : Bytes} (out : Bytes) (hblank : isBlank line = false) :
    (seekingServices service image out).line line =
      if isFlow line then none
      else if width line = 0 ∧ namesKey line (ascii "services") then
        if bare line (ascii "services") then
          some (seekingService service image 0 (out ++ unlines [line]))
        else none
      else some (seekingServices service image (out ++ unlines [line])) := by
  simp only [Pinner.line, seekingServices, seekingService, blank_eq, hblank, indent_eq, isFlow,
    print_eq, Bool.or_false, Bool.false_eq_true, if_false, Bool.not_false, if_true, Bool.true_and,
    Bool.or_eq_true]

theorem foldlM_seekingServices (out : Bytes) {lines : List Bytes}
    (h : ∀ line ∈ lines, isBlank line = false → width line = 0 →
      namesKey line (ascii "services") = false) :
    lines.foldlM Pinner.line (seekingServices service image out) =
      if lines.any isFlow then none
      else some (seekingServices service image (out ++ unlines lines)) := by
  induction lines generalizing out with
  | nil => simp [unlines]
  | cons line lines ih =>
      rw [List.forall_mem_cons] at h
      have hrest := ih (out ++ unlines [line]) h.2
      rw [List.append_assoc, ← unlines_append, List.singleton_append] at hrest
      have hline : (seekingServices service image out).line line =
          if isFlow line then none
          else some (seekingServices service image (out ++ unlines [line])) := by
        by_cases hblank : isBlank line = true
        · rw [line_of_blank _ hblank, if_neg (by simp [isFlow, hblank])]
          rfl
        · have hnamed := h.1 (by simpa using hblank)
          rw [line_seekingServices out (by simpa using hblank)]
          congr 1
          rw [if_neg fun ⟨hwidth, hnames⟩ => by simp [hnamed hwidth] at hnames]
      rw [List.foldlM_cons, hline, List.any_cons]
      by_cases hflow : isFlow line = true
      · simp [hflow]
      · simpa [hflow] using hrest

/-! ## Below `services:` -/

theorem line_seekingService {line : Bytes} (serviceWidth : Nat) (out : Bytes)
    (hblank : isBlank line = false) (hwidth : 0 < width line) :
    (seekingService service image serviceWidth out).line line =
      if width line = widthOr serviceWidth (width line) ∧ namesKey line service then
        if bare line service then
          some (seekingImage service image (widthOr serviceWidth (width line)) 0
            (out ++ unlines [line]))
        else none
      else some (seekingService service image (widthOr serviceWidth (width line))
        (out ++ unlines [line])) := by
  have hne : width line ≠ 0 := hwidth.ne'
  by_cases hunknown : serviceWidth = 0
  · simp [Pinner.line, below, seekingService, seekingImage, blank_eq, hblank, indent_eq, print_eq,
      hne, hunknown, widthOr]
  · simp [Pinner.line, below, seekingService, seekingImage, blank_eq, hblank, indent_eq, print_eq,
      hne, hunknown, widthOr]

theorem widthOr_zero (known : Nat) : widthOr known 0 = known := by
  unfold widthOr
  split_ifs <;> omega

theorem widthOr_widthOr (first second third : Nat) :
    widthOr (widthOr first second) third = widthOr first (widthOr second third) := by
  unfold widthOr
  split_ifs <;> simp_all

theorem indentation_cons_of_isBlank {line : Bytes} (h : isBlank line = true)
    (lines : List Bytes) : indentation (line :: lines) = indentation lines := by
  simp [indentation, h]

/-- The indentation that is known after lines: the one from before, or of the first of them. -/
theorem widthOr_indentation_cons {line : Bytes} (known : Nat) (lines : List Bytes)
    (hblank : isBlank line = false) (hwidth : 0 < width line) :
    widthOr (widthOr known (width line)) (indentation lines) =
      widthOr known (indentation (line :: lines)) := by
  rw [widthOr_widthOr, indentation_cons_of_not_isBlank hblank, widthOr, widthOr, widthOr,
    if_pos hwidth.ne']

theorem foldlM_seekingService (serviceWidth : Nat) (out : Bytes) {lines : List Bytes}
    (hwidth : ∀ line ∈ lines, isBlank line = false → 0 < width line)
    (h : ∀ line ∈ lines, isBlank line = false →
      width line = widthOr serviceWidth (indentation lines) → namesKey line service = false) :
    lines.foldlM Pinner.line (seekingService service image serviceWidth out) =
      some (seekingService service image (widthOr serviceWidth (indentation lines))
        (out ++ unlines lines)) := by
  induction lines generalizing serviceWidth out with
  | nil => simp [unlines, indentation, widthOr_zero]
  | cons line lines ih =>
      rw [List.forall_mem_cons] at h hwidth
      rw [List.foldlM_cons]
      by_cases hblank : isBlank line = true
      · rw [indentation_cons_of_isBlank hblank] at h ⊢
        have hrest := ih serviceWidth (out ++ unlines [line]) hwidth.2 h.2
        rw [List.append_assoc, ← unlines_append, List.singleton_append] at hrest
        rw [line_of_blank _ hblank]
        exact hrest
      · have hblank : isBlank line = false := by simpa using hblank
        have hline := hwidth.1 hblank
        rw [← widthOr_indentation_cons serviceWidth lines hblank hline] at h ⊢
        have hknown : widthOr (widthOr serviceWidth (width line)) (indentation lines) =
            widthOr serviceWidth (width line) := by
          rw [widthOr, if_pos]
          unfold widthOr
          split_ifs <;> omega
        have hrest := ih (widthOr serviceWidth (width line)) (out ++ unlines [line]) hwidth.2 h.2
        rw [List.append_assoc, ← unlines_append, List.singleton_append] at hrest
        rw [line_seekingService serviceWidth out hblank hline, if_neg]
        · exact hrest
        · rintro ⟨hat, hnames⟩
          rw [h.1 hblank (hat.trans hknown.symm)] at hnames
          cases hnames

/-! ## Below the service -/

theorem line_seekingImage {line : Bytes} (serviceWidth childWidth : Nat) (out : Bytes)
    (hblank : isBlank line = false) (hservice : 0 < serviceWidth)
    (hwidth : serviceWidth < width line)
    (hchild : widthOr childWidth (width line) ≤ width line) :
    (seekingImage service image serviceWidth childWidth out).line line =
      if width line = widthOr childWidth (width line) ∧
          (ascii "image:").isPrefixOf (line.drop (width line)) then
        some ((seekingImage service image serviceWidth (width line) out).emitImage (width line))
      else some (seekingImage service image serviceWidth (widthOr childWidth (width line))
        (out ++ unlines [line])) := by
  have hne : width line ≠ 0 := by omega
  have hdeep : ¬ width line ≤ serviceWidth := by omega
  by_cases hunknown : childWidth = 0
  · simp [Pinner.line, below, child, seekingImage, blank_eq, hblank, indent_eq, print_eq, hne,
      hservice.ne', hdeep, hunknown, widthOr]
    split_ifs <;> rfl
  · have hknown : ¬ width line < childWidth := by simpa [widthOr, hunknown] using hchild
    by_cases hat : width line = childWidth
    · simp [Pinner.line, below, child, seekingImage, blank_eq, hblank, indent_eq, print_eq,
        hservice.ne', hunknown, widthOr, hat]
      split_ifs <;> rfl
    · simp [Pinner.line, below, child, seekingImage, blank_eq, hblank, indent_eq, print_eq, hne,
        hservice.ne', hunknown, widthOr, hknown, hat]

theorem foldlM_seekingImage {serviceWidth : Nat} (childWidth : Nat) (out : Bytes)
    {lines : List Bytes} (hservice : 0 < serviceWidth)
    (hwidth : ∀ line ∈ lines, isBlank line = false → serviceWidth < width line)
    (hchild : ∀ line ∈ lines, isBlank line = false →
      widthOr childWidth (indentation lines) ≤ width line)
    (h : ∀ line ∈ lines, isBlank line = false →
      width line = widthOr childWidth (indentation lines) →
      (ascii "image:").isPrefixOf (line.drop (width line)) = false) :
    lines.foldlM Pinner.line (seekingImage service image serviceWidth childWidth out) =
      some (seekingImage service image serviceWidth (widthOr childWidth (indentation lines))
        (out ++ unlines lines)) := by
  induction lines generalizing childWidth out with
  | nil => simp [unlines, indentation, widthOr_zero]
  | cons line lines ih =>
      rw [List.forall_mem_cons] at h hwidth hchild
      rw [List.foldlM_cons]
      by_cases hblank : isBlank line = true
      · rw [indentation_cons_of_isBlank hblank] at h hchild ⊢
        have hrest := ih childWidth (out ++ unlines [line]) hwidth.2 hchild.2 h.2
        rw [List.append_assoc, ← unlines_append, List.singleton_append] at hrest
        rw [line_of_blank _ hblank]
        exact hrest
      · have hblank : isBlank line = false := by simpa using hblank
        have hline := hwidth.1 hblank
        have hpositive : 0 < width line := by omega
        rw [← widthOr_indentation_cons childWidth lines hblank hpositive] at h hchild ⊢
        have hknown : widthOr (widthOr childWidth (width line)) (indentation lines) =
            widthOr childWidth (width line) := by
          rw [widthOr, if_pos]
          unfold widthOr
          split_ifs <;> omega
        have hrest := ih (widthOr childWidth (width line)) (out ++ unlines [line]) hwidth.2
          hchild.2 h.2
        rw [List.append_assoc, ← unlines_append, List.singleton_append] at hrest
        rw [line_seekingImage serviceWidth childWidth out hblank hservice hline
          (hknown ▸ hchild.1 hblank), if_neg]
        · exact hrest
        · rintro ⟨hat, hnames⟩
          rw [h.1 hblank (hat.trans hknown.symm)] at hnames
          cases hnames

/-! ## Where a mapping ends -/

/-- Lines that do not begin deeper than an indentation. -/
def Stops (indent : Nat) (lines : List Bytes) : Prop :=
  ∀ line ∈ lines.head?, isBlank line = false ∧ width line ≤ indent

/-- Where the service ends above an image, one is printed. -/
theorem ends_seekingImage {serviceWidth childWidth : Nat} (out : Bytes) {lines : List Bytes}
    (hservice : 0 < serviceWidth) (hchild : childWidth = 0 ∨ serviceWidth < childWidth)
    (hstops : Stops serviceWidth lines) :
    (seekingImage service image serviceWidth childWidth out).ends lines =
      some (out ++ unlines (imageLine image (widthOr childWidth (serviceWidth * 2)) :: lines)) := by
  cases lines with
  | nil => simp [ends, finished, seekingImage, emitImage_eq]
  | cons line lines =>
      obtain ⟨hblank, hwidth⟩ := hstops line rfl
      have hline : (seekingImage service image serviceWidth childWidth out).line line =
          some (((seekingImage service image serviceWidth childWidth out).emitImage
            (widthOr childWidth (serviceWidth * 2))).print line) := by
        by_cases hzero : width line = 0
        · simp [Pinner.line, seekingImage, blank_eq, hblank, indent_eq, hzero]
        · rcases hchild with rfl | hchild
          · simp [Pinner.line, below, seekingImage, blank_eq, hblank, indent_eq, hzero,
              hservice.ne', hwidth, widthOr]
          · have hshallow : width line < childWidth := hwidth.trans_lt hchild
            have hknown : childWidth ≠ 0 := by omega
            simp [Pinner.line, below, child, seekingImage, blank_eq, hblank, indent_eq, hzero,
              hservice.ne', hshallow, hknown, widthOr]
      rw [ends_cons, hline, Option.bind_some, emitImage_eq, print_eq, ends_of_done rfl]
      simp [seekingImage, unlines]

/-- Where the services end above the service, it is printed. -/
theorem ends_seekingService {serviceWidth : Nat} (out : Bytes) {lines : List Bytes}
    (hstops : Stops 0 lines) :
    (seekingService service image serviceWidth out).ends lines =
      some (out ++ unlines (serviceLine service (widthOr serviceWidth 2) ::
        imageLine image (widthOr serviceWidth 2 * 2) :: lines)) := by
  cases lines with
  | nil => simp [ends, finished, seekingService, emitService_eq]
  | cons line lines =>
      obtain ⟨hblank, hwidth⟩ := hstops line rfl
      have hzero : width line = 0 := by omega
      have hline : (seekingService service image serviceWidth out).line line =
          some (((seekingService service image serviceWidth out).emitService
            (widthOr serviceWidth 2)).print line) := by
        simp [Pinner.line, seekingService, blank_eq, hblank, indent_eq, hzero]
      rw [ends_cons, hline, Option.bind_some, emitService_eq, print_eq, ends_of_done rfl]
      simp [seekingService, unlines]

/-- At the end of an override with no services, they are printed. -/
theorem ends_seekingServices (out : Bytes) :
    (seekingServices service image out).ends [] =
      some (out ++ unlines [ascii "services:", serviceLine service 2, imageLine image 4]) := by
  simp [ends, finished, seekingServices, print_eq, emitService_eq, unlines]

end Pinner

/-! ## The entries that are put in place -/

section Put

variable (escapes : Escapes) (service image : Bytes)

/-- The image's entry, of the one there is. -/
def imageEntry (indent : Nat) (old : Option Entry) : Entry :=
  ⟨imageLine image indent, (old.map Entry.body).getD []⟩

/-- A service's lines with its image set, below a service at an indentation. -/
def withImage (serviceWidth : Nat) (lines : List Bytes) : List Bytes :=
  edit escapes (ascii "image")
    (imageEntry image (Pinner.widthOr (indentation lines) (serviceWidth * 2))) lines

/-- The service's entry, of the one there is. -/
def serviceEntry (indent : Nat) (old : Option Entry) : Entry :=
  ⟨(old.map Entry.line).getD (serviceLine service indent),
    withImage escapes image indent ((old.map Entry.body).getD [])⟩

/-- The services' lines with the service's image set. -/
def withService (lines : List Bytes) : List Bytes :=
  edit escapes service
    (serviceEntry escapes service image (Pinner.widthOr (indentation lines) 2)) lines

/-- The services' entry, of the one there is. -/
def servicesEntry (old : Option Entry) : Entry :=
  ⟨(old.map Entry.line).getD (ascii "services:"),
    withService escapes service image ((old.map Entry.body).getD [])⟩

/-- A document's lines with the service's image set. -/
def withServices (lines : List Bytes) : List Bytes :=
  edit escapes (ascii "services") (servicesEntry escapes service image) lines

/-- The pin takes for a key the line a reader does: no line above it, at the mapping's
indentation, and its own. -/
structure Takes (names : Bytes → Bool) (key : Bytes) (lines : List Bytes) : Prop where
  above : ∀ line ∈ before escapes key lines, isBlank line = false →
    width line = indentation lines → names line = false
  own : ∀ entry ∈ find escapes key (entries lines), names entry.line = true

instance (names : Bytes → Bool) (key : Bytes) (lines : List Bytes) :
    Decidable (Takes escapes names key lines) :=
  decidable_of_iff
    ((∀ line ∈ before escapes key lines, isBlank line = false →
      width line = indentation lines → names line = false) ∧
      ∀ entry ∈ find escapes key (entries lines), names entry.line = true)
    ⟨fun ⟨habove, hown⟩ => ⟨habove, hown⟩, fun ⟨habove, hown⟩ => ⟨habove, hown⟩⟩

/-- What the pin takes for a service's image. -/
def namesImage (line : Bytes) : Bool := (ascii "image:").isPrefixOf (line.drop (width line))

end Put

/-- The key of an entry stands alone on its line. -/
def bareEntry (escapes : Escapes) (key : Bytes) (lines : List Bytes) : Bool :=
  (find escapes key (entries lines)).all fun entry => bare entry.line key

theorem bareEntry_nil (escapes : Escapes) (key : Bytes) : bareEntry escapes key [] = true := rfl

/-- What the pin does not refuse: no line above `services:` is in flow style, and the services
and the service stand alone on their lines. -/
def accepts (escapes : Escapes) (service : Bytes) (first root : List Bytes) : Bool :=
  !(first ++ before escapes (ascii "services") root).any isFlow &&
    bareEntry escapes (ascii "services") root &&
    bareEntry escapes service (below escapes (ascii "services") root)

/-- The pin takes what a reader does on the way to the image. -/
structure Agrees (escapes : Escapes) (service : Bytes) (root : List Bytes) : Prop where
  column : indentation root = 0
  atServices : Takes escapes (namesKey · (ascii "services")) (ascii "services") root
  atService : Takes escapes (namesKey · service) service
    (below escapes (ascii "services") root)
  atImage : Takes escapes namesImage (ascii "image")
    (below escapes service (below escapes (ascii "services") root))

instance (escapes : Escapes) (service : Bytes) (root : List Bytes) :
    Decidable (Agrees escapes service root) :=
  decidable_of_iff
    (indentation root = 0 ∧
      Takes escapes (namesKey · (ascii "services")) (ascii "services") root ∧
      Takes escapes (namesKey · service) service (below escapes (ascii "services") root) ∧
      Takes escapes namesImage (ascii "image")
        (below escapes service (below escapes (ascii "services") root)))
    ⟨fun ⟨hcolumn, hservices, hservice, himage⟩ => ⟨hcolumn, hservices, hservice, himage⟩,
      fun ⟨hcolumn, hservices, hservice, himage⟩ => ⟨hcolumn, hservices, hservice, himage⟩⟩

/-- The mappings on the way to the image. -/
structure Reads (escapes : Escapes) (service : Bytes) (root : List Bytes) : Prop where
  atTop : Written escapes root
  atServices : Written escapes (below escapes (ascii "services") root)
  atService : Written escapes
    (below escapes service (below escapes (ascii "services") root))

namespace Pinner

variable {escapes : Escapes} {service image : Bytes}

/-- What is known of the indentation of the lines above a key is what there is to know. -/
theorem widthOr_before (escapes : Escapes) (key : Bytes) (lines : List Bytes) :
    widthOr (widthOr 0 (indentation (before escapes key lines))) (indentation lines) =
      indentation lines := by
  rcases indentation_eq (before escapes key lines) with hzero | ⟨line, hline, hblank, hwidth⟩
  · simp [hzero, widthOr]
  · rw [indentation_before hline hblank]
    unfold widthOr
    split_ifs <;> simp_all

/-- Below a service, its image is set. -/
theorem ends_withImage {serviceWidth : Nat} (out : Bytes) {lines after : List Bytes}
    (hservice : 0 < serviceWidth) (hwritten : Written escapes lines)
    (hdeep : ∀ line ∈ lines, isBlank line = false → serviceWidth < width line)
    (htakes : Takes escapes namesImage (ascii "image") lines) (hstops : Stops serviceWidth after) :
    (seekingImage service image serviceWidth 0 out).ends (lines ++ after) =
      some (out ++ unlines (withImage escapes image serviceWidth lines ++ after)) := by
  have habove : (before escapes (ascii "image") lines).foldlM Pinner.line
      (seekingImage service image serviceWidth 0 out) = some (seekingImage service image
        serviceWidth (widthOr 0 (indentation (before escapes (ascii "image") lines)))
        (out ++ unlines (before escapes (ascii "image") lines))) := by
    refine foldlM_seekingImage 0 out hservice (fun line hline => ?_) (fun line hline hblank => ?_)
      fun line hline hblank hat => ?_
    · exact hdeep line (mem_of_mem_before hline)
    · rw [indentation_before hline hblank]
      exact hwritten.indentation_le (mem_of_mem_before hline) hblank
    · rw [indentation_before hline hblank] at hat
      exact htakes.above line hline hblank hat
  cases hfound : find escapes (ascii "image") (entries lines) with
  | none =>
      obtain ⟨hbefore, hafter⟩ := lines_of_find_eq_none hfound
      rw [hbefore] at habove
      have hchild : widthOr 0 (indentation lines) = 0 ∨
          serviceWidth < widthOr 0 (indentation lines) := by
        rcases indentation_eq lines with hzero | ⟨line, hline, hblank, hwidth⟩
        · exact .inl (by simp [hzero, widthOr])
        · exact .inr (by simpa [widthOr, ← hwidth] using hdeep line hline hblank)
      rw [ends_append habove, ends_seekingImage _ hservice hchild hstops, withImage, edit, hfound,
        hbefore, hafter]
      simp [Entry.lines, imageEntry, widthOr, unlines]
  | some entry =>
      obtain ⟨hmem, hblank, hwidth⟩ := hwritten.found hfound
      have hdeeper := hdeep entry.line hmem hblank
      have hnamed : (ascii "image:").isPrefixOf (entry.line.drop (width entry.line)) = true :=
        htakes.own entry hfound
      have hknown := widthOr_before escapes (ascii "image") lines
      rw [← hwidth] at hknown
      have hline := @line_seekingImage service image entry.line serviceWidth
        (widthOr 0 (indentation (before escapes (ascii "image") lines)))
        (out ++ unlines (before escapes (ascii "image") lines)) hblank hservice hdeeper hknown.le
      rw [if_pos ⟨hknown.symm, hnamed⟩, emitImage_eq] at hline
      have hne : indentation lines ≠ 0 := by omega
      have hlines : lines ++ after = before escapes (ascii "image") lines ++
          entry.line :: (entry.body ++ BlockMapping.after escapes (ascii "image") lines ++ after) := by
        conv_lhs => rw [lines_of_find_eq_some hfound]
        simp [Entry.lines]
      rw [hlines, ends_append habove, ends_cons, hline, Option.bind_some, ends_of_done rfl,
        withImage, edit, hfound, hwidth]
      simp [Entry.lines, imageEntry, widthOr, hne, seekingImage, unlines]

theorem withImage_nil (escapes : Escapes) (image : Bytes) (serviceWidth : Nat) :
    withImage escapes image serviceWidth [] = [imageLine image (serviceWidth * 2)] := rfl

theorem withService_nil (escapes : Escapes) (service image : Bytes) :
    withService escapes service image [] = [serviceLine service 2, imageLine image 4] := rfl

/-- What follows an entry of a mapping begins no deeper than the mapping. -/
theorem stops_after {lines : List Bytes} (hwritten : Written escapes lines) (key : Bytes)
    {rest : List Bytes} (hrest : Stops 0 rest) :
    Stops (indentation lines) (after escapes key lines ++ rest) := by
  intro line hline
  unfold after at hline
  cases htail : ((entries lines).dropWhile fun entry => !(entry.key escapes == some key)).tail with
  | nil =>
      rw [htail, flatten_nil, List.nil_append] at hline
      obtain ⟨hblank, hwidth⟩ := hrest line hline
      exact ⟨hblank, hwidth.trans (Nat.zero_le _)⟩
  | cons entry later =>
      rw [htail] at hline
      obtain rfl : entry.line = line := by simpa [Entry.lines] using hline
      have hentry : entry ∈ entries lines := by
        apply List.dropWhile_subset
        apply List.mem_of_mem_tail
        rw [htail]
        exact List.mem_cons_self
      exact ⟨not_isBlank_of_not_continues ((grouped_entries lines).begins entry hentry),
        (hwritten.aligned entry hentry).le⟩

/-- Below `services:`, the service's image is set, or the service's line is refused. -/
theorem ends_withService (out : Bytes) {lines rest : List Bytes}
    (hwritten : Written escapes lines)
    (hdeep : ∀ line ∈ lines, isBlank line = false → 0 < width line)
    (htakes : Takes escapes (namesKey · service) service lines)
    (hbody : Written escapes (BlockMapping.below escapes service lines))
    (hbodyTakes : Takes escapes namesImage (ascii "image")
      (BlockMapping.below escapes service lines))
    (hstops : Stops 0 rest) :
    (seekingService service image 0 out).ends (lines ++ rest) =
      if bareEntry escapes service lines then
        some (out ++ unlines (withService escapes service image lines ++ rest))
      else none := by
  have habove : (before escapes service lines).foldlM Pinner.line
      (seekingService service image 0 out) = some (seekingService service image
        (widthOr 0 (indentation (before escapes service lines)))
        (out ++ unlines (before escapes service lines))) := by
    refine foldlM_seekingService 0 out (fun line hline => ?_) fun line hline hblank hat => ?_
    · exact hdeep line (mem_of_mem_before hline)
    · rw [indentation_before hline hblank] at hat
      exact htakes.above line hline hblank hat
  cases hfound : find escapes service (entries lines) with
  | none =>
      obtain ⟨hbefore, hafter⟩ := lines_of_find_eq_none hfound
      rw [hbefore] at habove
      rw [ends_append habove, ends_seekingService _ hstops, bareEntry, hfound, withService, edit,
        hfound, hbefore, hafter]
      simp [Entry.lines, serviceEntry, widthOr, unlines, withImage_nil]
  | some entry =>
      obtain ⟨hmem, hblank, hwidth⟩ := hwritten.found hfound
      rw [below_eq hfound] at hbody hbodyTakes
      have hpositive := hdeep entry.line hmem hblank
      have hnamed : namesKey entry.line service = true := htakes.own entry hfound
      have hknown := widthOr_before escapes service lines
      have hline := @line_seekingService service image entry.line
        (widthOr 0 (indentation (before escapes service lines)))
        (out ++ unlines (before escapes service lines)) hblank hpositive
      rw [hwidth] at hline hpositive
      rw [hknown, if_pos ⟨rfl, hnamed⟩] at hline
      have hlines : lines ++ rest = before escapes service lines ++
          entry.line :: (entry.body ++ (after escapes service lines ++ rest)) := by
        conv_lhs => rw [lines_of_find_eq_some hfound]
        simp [Entry.lines]
      have hbodyDeep : ∀ line ∈ entry.body, isBlank line = false → indentation lines < width line :=
        fun line hline => hbody.lt_width
          ((grouped_entries lines).continued entry (mem_of_find hfound).1) hline
      have hends := @ends_withImage escapes service image (indentation lines)
        (out ++ unlines (before escapes service lines) ++ unlines [entry.line]) entry.body
        (after escapes service lines ++ rest) hpositive hbody hbodyDeep hbodyTakes
        (stops_after hwritten service hstops)
      rw [hlines, ends_append habove, ends_cons, hline, bareEntry, hfound, Option.all_some]
      by_cases hbare : bare entry.line service = true
      · rw [if_pos hbare, if_pos hbare, Option.bind_some, hends, withService, edit, hfound]
        simp [Entry.lines, serviceEntry, widthOr, hpositive.ne', unlines]
      · rw [if_neg hbare, if_neg hbare, Option.bind_none]

theorem not_namesKey_of_isMarker {line : Bytes} (h : isMarker line = true) :
    namesKey line (ascii "services") = false := by
  unfold isMarker at h
  split at h
  · rfl
  · cases h

/-- A line in flow style names no key. -/
theorem not_isFlow_of_namesKey {line : Bytes} (h : namesKey line (ascii "services") = true) :
    isFlow line = false := by
  by_contra hflow
  have hbegins : (ascii "\x7b").isPrefixOf (content line) = true ∨
      (ascii "[").isPrefixOf (content line) = true := by
    rw [isFlow, drop_width] at hflow
    rw [Bool.not_eq_false, Bool.and_eq_true, Bool.or_eq_true] at hflow
    exact hflow.2
  rw [namesKey, key, show line.dropWhile (· == 32) = content line from rfl] at h
  cases hcontent : content line with
  | nil => simp [hcontent, unquoted, Bytes.cutPrefix, ascii] at h
  | cons byte rest =>
      rw [hcontent] at h hbegins
      have hbyte : 123 = byte ∨ 91 = byte := by simpa [ascii, List.isPrefixOf] using hbegins
      rcases hbyte with rfl | rfl
      · simp [unquoted, Bytes.cutPrefix, ascii, List.isPrefixOf] at h
      · simp [unquoted, Bytes.cutPrefix, ascii, List.isPrefixOf] at h

/-- From the top, the service's image is set, or a line is refused. -/
theorem ends_withServices {first root : List Bytes}
    (hfirst : ∀ line ∈ first, isBlank line = true ∨ isMarker line = true)
    (hreads : Reads escapes service root) (hagrees : Agrees escapes service root) :
    (seekingServices service image []).ends (first ++ root) =
      if accepts escapes service first root then
        some (unlines (first ++ withServices escapes service image root))
      else none := by
  have habove : (first ++ before escapes (ascii "services") root).foldlM Pinner.line
      (seekingServices service image []) =
        if (first ++ before escapes (ascii "services") root).any isFlow then none
        else some (seekingServices service image
          ([] ++ unlines (first ++ before escapes (ascii "services") root))) := by
    refine foldlM_seekingServices [] fun line hline hblank hat => ?_
    rcases List.mem_append.mp hline with hline | hline
    · rcases hfirst line hline with hblank' | hmarker
      · rw [hblank] at hblank'
        cases hblank'
      · exact not_namesKey_of_isMarker hmarker
    · exact hagrees.atServices.above line hline hblank (by rw [hat, hagrees.column])
  by_cases hflow : (first ++ before escapes (ascii "services") root).any isFlow = true
  · have hrefused : ∀ rest, (seekingServices service image []).ends
        ((first ++ before escapes (ascii "services") root) ++ rest) = none := by
      intro rest
      rw [ends, List.foldlM_append, habove, if_pos hflow]
      rfl
    rw [accepts, hflow]
    cases hfound : find escapes (ascii "services") (entries root) with
    | none =>
        have hlines := hrefused []
        rwa [(lines_of_find_eq_none hfound).1, List.append_nil] at hlines
    | some entry =>
        have hlines : first ++ root = (first ++ before escapes (ascii "services") root) ++
            (entry.lines ++ after escapes (ascii "services") root) := by
          conv_lhs => rw [lines_of_find_eq_some hfound]
          simp
        rw [hlines, hrefused]
        rfl
  rw [if_neg hflow] at habove
  cases hfound : find escapes (ascii "services") (entries root) with
  | none =>
      obtain ⟨hbefore, hafter⟩ := lines_of_find_eq_none hfound
      rw [hbefore] at habove hflow
      rw [← List.append_nil (first ++ root), ends_append habove, ends_seekingServices, accepts,
        bareEntry, BlockMapping.below, hfound, withServices, edit, hfound, hbefore, hafter]
      simp [hflow, Entry.lines, servicesEntry, unlines, withService_nil, bareEntry_nil]
  | some entry =>
      obtain ⟨hentry, -⟩ := mem_of_find hfound
      have hbelow := below_eq hfound
      have hbody := hbelow ▸ hreads.atServices
      have hblank := not_isBlank_of_not_continues ((grouped_entries root).begins entry hentry)
      have hwidth : width entry.line = 0 := by
        rw [hreads.atTop.aligned entry hentry, hagrees.column]
      have hnamed : namesKey entry.line (ascii "services") = true :=
        hagrees.atServices.own entry hfound
      have hline := @line_seekingServices service image entry.line
        ([] ++ unlines (first ++ before escapes (ascii "services") root)) hblank
      rw [not_isFlow_of_namesKey hnamed, if_neg Bool.false_ne_true, if_pos ⟨hwidth, hnamed⟩] at hline
      have hbodyDeep : ∀ line ∈ entry.body, isBlank line = false → 0 < width line := by
        intro line hline
        have hdeep := hbody.lt_width ((grouped_entries root).continued entry hentry) hline
        rwa [hagrees.column] at hdeep
      have hstops : Stops 0 (after escapes (ascii "services") root) := by
        have hstops := @stops_after escapes root hreads.atTop (ascii "services") [] (by simp [Stops])
        rwa [List.append_nil, hagrees.column] at hstops
      have hends := @ends_withService escapes service image
        ([] ++ unlines (first ++ before escapes (ascii "services") root) ++ unlines [entry.line])
        entry.body (after escapes (ascii "services") root) hbody hbodyDeep
        (hbelow ▸ hagrees.atService) (hbelow ▸ hreads.atService) (hbelow ▸ hagrees.atImage) hstops
      have hlines : first ++ root = (first ++ before escapes (ascii "services") root) ++
          entry.line :: (entry.body ++ after escapes (ascii "services") root) := by
        conv_lhs => rw [lines_of_find_eq_some hfound]
        simp [Entry.lines]
      rw [hlines, ends_append habove, ends_cons, hline, accepts, hbelow,
        show bareEntry escapes (ascii "services") root = bare entry.line (ascii "services") by
          rw [bareEntry, hfound, Option.all_some]]
      by_cases hbare : bare entry.line (ascii "services") = true
      · rw [if_pos hbare, Option.bind_some, hends]
        by_cases hinner : bareEntry escapes service entry.body = true
        · simp [hinner, hflow, hbare, withServices, edit, hfound, Entry.lines, servicesEntry, unlines]
        · simp [hinner]
      · simp [hbare]

end Pinner

end SeverinoHQ.Host
