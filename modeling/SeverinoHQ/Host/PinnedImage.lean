/-
# The pinned override reads as the override with the image set

Where the pin takes what a reader does on the way to the image, what it prints is a mapping
again, of the same entries but for the image, and the pin leaves it as it is.
-/

import SeverinoHQ.Host.Pinned

namespace SeverinoHQ.Host

open SeverinoHQ.Math
open SeverinoHQ.Math.Bytes (ascii splitSeq)
open SeverinoHQ.Math.BlockMapping
open SeverinoHQ.Host.Pinner (widthOr)

/-! ## The lines that are printed -/

theorem imageLine_eq (image : Bytes) (indent : Nat) :
    imageLine image indent =
      List.replicate indent 32 ++ (105 :: [109, 97, 103, 101] ++ 58 :: (32 :: image)) := by
  rw [imageLine, List.append_assoc]
  rfl

theorem serviceLine_eq (service : Bytes) (indent : Nat) :
    serviceLine service indent = List.replicate indent 32 ++ 34 :: (service ++ [34, 58]) := by
  rw [serviceLine, show ascii ":" = [58] from rfl]
  simp

theorem entryOf_imageLine (escapes : Escapes) (image : Bytes) (indent : Nat) :
    entryOf escapes (imageLine image indent) = some (ascii "image", 32 :: image) := by
  rw [imageLine_eq]
  exact entryOf_plain escapes indent (List.all_eq_true.mp rfl) (by decide) (by decide)
    (fun rest => rfl) rfl

theorem entryOf_serviceLine (escapes : Escapes) {service : Bytes} (h : quotable service = true)
    (indent : Nat) : entryOf escapes (serviceLine service indent) = some (service, []) := by
  rw [serviceLine_eq]
  exact entryOf_quoted escapes indent h

theorem entryOf_servicesLine (escapes : Escapes) :
    entryOf escapes (ascii "services:") = some (ascii "services", []) :=
  @entryOf_plain escapes 0 115 [101, 114, 118, 105, 99, 101, 115] [] (List.all_eq_true.mp rfl)
    (by decide) (by decide) (fun rest => rfl) rfl

theorem width_imageLine (image : Bytes) (indent : Nat) : width (imageLine image indent) = indent := by
  rw [imageLine_eq]
  exact width_replicate indent (by decide) _

theorem width_serviceLine (service : Bytes) (indent : Nat) :
    width (serviceLine service indent) = indent := by
  rw [serviceLine_eq]
  exact width_replicate indent (by decide) _

/-- An entry's line that does not begin with a dash or a comment begins an entry. -/
theorem begins_of_content {line : Bytes} {byte : UInt8} {rest : Bytes}
    (hcontent : content line = byte :: rest) (hcomment : byte ≠ 35) (hdash : byte ≠ 45) :
    continues (width line) line = false := by
  simp [continues, isBlank, isItem, hcontent, hcomment, hdash]

theorem begins_imageLine (image : Bytes) (indent : Nat) :
    continues indent (imageLine image indent) = false := by
  have hcontent : content (imageLine image indent) =
      105 :: ([109, 97, 103, 101] ++ 58 :: (32 :: image)) := by
    rw [imageLine_eq]
    exact content_replicate indent (by decide) _
  have hbegins := begins_of_content hcontent (by decide) (by decide)
  rwa [width_imageLine] at hbegins

theorem begins_serviceLine (service : Bytes) (indent : Nat) :
    continues indent (serviceLine service indent) = false := by
  have hcontent : content (serviceLine service indent) = 34 :: (service ++ [34, 58]) := by
    rw [serviceLine_eq]
    exact content_replicate indent (by decide) _
  have hbegins := begins_of_content hcontent (by decide) (by decide)
  rwa [width_serviceLine] at hbegins

theorem continues_of_lt {indent : Nat} {line : Bytes} (h : indent < width line) :
    continues indent line = true := by
  simp [continues, h]

/-! ## What is put fits -/

section Fits

variable {escapes : Escapes} {service image : Bytes}

/-- A mapping that stands deeper than an indentation has one of its own, or no entry. -/
theorem entries_eq_nil_or {lines : List Bytes} (hwritten : Written escapes lines) {indent : Nat}
    (hdeep : ∀ line ∈ lines, isBlank line = false → indent < width line) :
    entries lines = [] ∨ indent < indentation lines := by
  cases hentries : entries lines with
  | nil => exact .inl rfl
  | cons entry rest =>
      have hentry : entry ∈ entries lines := by simp [hentries]
      have hblank := not_isBlank_of_not_continues ((grouped_entries lines).begins entry hentry)
      have hmem : entry.line ∈ lines := by
        rw [← lead_entries lines]
        apply List.mem_append_right
        exact List.mem_flatMap.mpr ⟨entry, hentry, List.mem_cons_self⟩
      right
      rw [← hwritten.aligned entry hentry]
      exact hdeep entry.line hmem hblank

theorem below_of_entries_eq_nil {lines : List Bytes} (h : entries lines = []) (key : Bytes) :
    below escapes key lines = [] := by
  rw [below, h]
  rfl

theorem fits_image {serviceWidth : Nat} {lines : List Bytes} (hwritten : Written escapes lines)
    (hdeep : ∀ line ∈ lines, isBlank line = false → serviceWidth < width line) :
    Fits escapes (ascii "image") lines
      (imageEntry image (widthOr (indentation lines) (serviceWidth * 2))
        (find escapes (ascii "image") (entries lines))) := by
  have hindent := entries_eq_nil_or hwritten hdeep
  have hwidth := width_imageLine image (widthOr (indentation lines) (serviceWidth * 2))
  constructor
  · rw [Entry.key, imageEntry, entryOf_imageLine]
    rfl
  · rw [imageEntry, hwidth]
    rcases hindent with hnone | hpositive
    · exact .inl hnone
    · exact .inr (if_pos (by omega))
  · rw [imageEntry, hwidth]
    exact begins_imageLine _ _
  · intro line hline
    rw [imageEntry, hwidth]
    rcases hindent with hnone | hpositive
    · rw [hnone] at hline
      cases hline
    · rw [widthOr, if_pos (by omega)]
      exact continues_of_mem_below hline

/-- An image deeper than an indentation stays below it. -/
theorem continues_withImage {indent serviceWidth : Nat} {lines : List Bytes}
    (hindent : indent < widthOr (indentation lines) (serviceWidth * 2))
    (h : ∀ line ∈ lines, continues indent line = true) :
    ∀ line ∈ withImage escapes image serviceWidth lines, continues indent line = true := by
  refine forall_mem_edit (fun line hline => ?_) h
  rcases List.mem_cons.mp hline with rfl | hbelow
  · exact continues_of_lt (by rwa [imageEntry, width_imageLine])
  · exact h line (mem_of_mem_below hbelow)

theorem widthOr_pos {known fallback : Nat} (h : 0 < fallback) : 0 < widthOr known fallback := by
  unfold widthOr
  split_ifs <;> omega

/-- The lines below a service stand deeper than it. -/
theorem lt_width_below {lines : List Bytes} (hwritten : Written escapes lines)
    (hdeep : ∀ line ∈ lines, isBlank line = false → 0 < width line)
    (hbelow : Written escapes (below escapes service lines)) :
    ∀ line ∈ below escapes service lines, isBlank line = false →
      widthOr (indentation lines) 2 < width line := by
  intro line hline hblank
  rcases entries_eq_nil_or hwritten hdeep with hnone | hpositive
  · rw [below_of_entries_eq_nil hnone] at hline
    cases hline
  · rw [widthOr, if_pos (by omega)]
    exact hbelow.lt_width (fun line hline => continues_of_mem_below hline) hline hblank

/-- What is printed below a service stands deeper than it. -/
theorem lt_indentation_withImage {lines : List Bytes} {serviceWidth : Nat}
    (hservice : 0 < serviceWidth)
    (hdeep : ∀ line ∈ lines, isBlank line = false → serviceWidth < width line) :
    serviceWidth < widthOr (indentation lines) (serviceWidth * 2) := by
  unfold widthOr
  split_ifs with hindent
  · rcases indentation_eq lines with hzero | ⟨line, hline, hblank, hwidth⟩
    · exact absurd hzero hindent
    · rw [← hwidth]
      exact hdeep line hline hblank
  · omega

/-- The service stands where the services do. -/
theorem width_serviceEntry {lines : List Bytes} (hwritten : Written escapes lines)
    (hdeep : ∀ line ∈ lines, isBlank line = false → 0 < width line) :
    width (serviceEntry escapes service image (widthOr (indentation lines) 2)
      (find escapes service (entries lines))).line = widthOr (indentation lines) 2 := by
  cases hfound : find escapes service (entries lines) with
  | none => exact width_serviceLine _ _
  | some entry =>
      obtain ⟨hentry, -⟩ := mem_of_find hfound
      have hwidth := hwritten.aligned entry hentry
      rcases entries_eq_nil_or hwritten hdeep with hnone | hpositive
      · rw [hnone] at hentry
        cases hentry
      · rw [widthOr, if_pos hpositive.ne']
        exact hwidth

theorem fits_service {lines : List Bytes} (hwritten : Written escapes lines)
    (hdeep : ∀ line ∈ lines, isBlank line = false → 0 < width line)
    (hbelow : Written escapes (below escapes service lines))
    (hnamed : find escapes service (entries lines) = none → quotable service = true) :
    Fits escapes service lines (serviceEntry escapes service image
      (widthOr (indentation lines) 2) (find escapes service (entries lines))) := by
  have hwidth := @width_serviceEntry escapes service image lines hwritten hdeep
  have hbody := lt_width_below hwritten hdeep hbelow
  have hbodyWidth := lt_indentation_withImage (widthOr_pos (by decide)) hbody
  refine ⟨?_, ?_, ?_, ?_⟩
  · cases hfound : find escapes service (entries lines) with
    | none =>
        rw [Entry.key, serviceEntry, Option.map_none, Option.getD_none,
          entryOf_serviceLine escapes (hnamed hfound)]
        rfl
    | some entry => exact (mem_of_find hfound).2
  · rw [hwidth]
    rcases entries_eq_nil_or hwritten hdeep with hnone | hpositive
    · exact .inl hnone
    · exact .inr (if_pos hpositive.ne')
  · rw [hwidth]
    cases hfound : find escapes service (entries lines) with
    | none => exact begins_serviceLine _ _
    | some entry =>
        obtain ⟨hentry, -⟩ := mem_of_find hfound
        have hbegins := (grouped_entries lines).begins entry hentry
        rcases entries_eq_nil_or hwritten hdeep with hnone | hpositive
        · rw [hnone] at hentry
          cases hentry
        · rwa [widthOr, if_pos hpositive.ne']
  · rw [hwidth]
    refine continues_withImage hbodyWidth fun line hline => ?_
    by_cases hblank : isBlank line = true
    · exact continues_of_isBlank hblank
    · exact continues_of_lt (hbody line hline (by simpa using hblank))

/-- The lines below the services stand deeper than a mapping at the first column. -/
theorem width_below_pos {root : List Bytes} (hcolumn : indentation root = 0)
    (hbelow : Written escapes (below escapes (ascii "services") root)) :
    ∀ line ∈ below escapes (ascii "services") root, isBlank line = false → 0 < width line := by
  intro line hline hblank
  have hdeep := hbelow.lt_width (fun line hline => continues_of_mem_below hline) hline hblank
  rwa [hcolumn] at hdeep

theorem continues_withService {lines : List Bytes} (hwritten : Written escapes lines)
    (hdeep : ∀ line ∈ lines, isBlank line = false → 0 < width line)
    (hbelow : Written escapes (below escapes service lines)) :
    ∀ line ∈ withService escapes service image lines, continues 0 line = true := by
  have hwidth := @width_serviceEntry escapes service image lines hwritten hdeep
  have hbodyWidth := lt_indentation_withImage (widthOr_pos (by decide))
    (lt_width_below hwritten hdeep hbelow)
  have hlines : ∀ line ∈ lines, continues 0 line = true := by
    intro line hline
    by_cases hblank : isBlank line = true
    · exact continues_of_isBlank hblank
    · exact continues_of_lt (hdeep line hline (by simpa using hblank))
  refine forall_mem_edit (fun line hline => ?_) hlines
  rcases List.mem_cons.mp hline with rfl | hline
  · apply continues_of_lt
    rw [hwidth]
    exact widthOr_pos (by decide)
  · refine continues_withImage ((Nat.zero_le _).trans_lt hbodyWidth) ?_ line hline
    exact fun line hline => hlines line (mem_of_mem_below hline)

/-- The services stand at the first column. -/
theorem width_servicesEntry {root : List Bytes} (hwritten : Written escapes root)
    (hcolumn : indentation root = 0) :
    width (servicesEntry escapes service image
      (find escapes (ascii "services") (entries root))).line = 0 := by
  cases hfound : find escapes (ascii "services") (entries root) with
  | none => rfl
  | some entry =>
      rw [← hcolumn]
      exact hwritten.aligned entry (mem_of_find hfound).1

theorem fits_services {root : List Bytes} (hreads : Reads escapes service root)
    (hcolumn : indentation root = 0) :
    Fits escapes (ascii "services") root (servicesEntry escapes service image
      (find escapes (ascii "services") (entries root))) := by
  have hwidth := @width_servicesEntry escapes service image root hreads.atTop hcolumn
  have hdeep := width_below_pos hcolumn hreads.atServices
  refine ⟨?_, ?_, ?_, ?_⟩
  · cases hfound : find escapes (ascii "services") (entries root) with
    | none =>
        rw [Entry.key, servicesEntry, Option.map_none, Option.getD_none, entryOf_servicesLine]
        rfl
    | some entry => exact (mem_of_find hfound).2
  · exact .inr (hwidth.trans hcolumn.symm)
  · rw [hwidth]
    cases hfound : find escapes (ascii "services") (entries root) with
    | none => rfl
    | some entry =>
        rw [← hcolumn]
        exact (grouped_entries root).begins entry (mem_of_find hfound).1
  · rw [hwidth]
    exact continues_withService hreads.atServices hdeep hreads.atService

end Fits

/-! ## The image is set, and nothing else -/

/-- What the pin relies on: it follows a reader to the image, the service's name is its own key
between quotes where the service is added, an image that is there is on its key's line, and the
new one is a plain text. -/
structure Pinnable (escapes : Escapes) (service image : Bytes) (root : List Bytes) : Prop where
  agrees : Agrees escapes service root
  named : find escapes service (entries (below escapes (ascii "services") root)) = none →
    quotable service = true
  value : ∀ line ∈ below escapes (ascii "image") (below escapes service
    (below escapes (ascii "services") root)), isBlank line = true
  plain : plain image = some image

instance (escapes : Escapes) (service image : Bytes) (root : List Bytes) :
    Decidable (Pinnable escapes service image root) :=
  decidable_of_iff
    (Agrees escapes service root ∧
      (find escapes service (entries (below escapes (ascii "services") root)) = none →
        quotable service = true) ∧
      (∀ line ∈ below escapes (ascii "image") (below escapes service
        (below escapes (ascii "services") root)), isBlank line = true) ∧
      BlockMapping.plain image = some image)
    ⟨fun ⟨hagrees, hnamed, hvalue, hplain⟩ => ⟨hagrees, hnamed, hvalue, hplain⟩,
      fun ⟨hagrees, hnamed, hvalue, hplain⟩ => ⟨hagrees, hnamed, hvalue, hplain⟩⟩

section Set

variable {escapes : Escapes} {service image : Bytes} {root : List Bytes}

/-- The keys on the way to a service's image. -/
def imagePath (service : Bytes) : List Bytes := [ascii "services", service, ascii "image"]

theorem Reads.of_mapped {inline : Bytes}
    (h : Value.Mapped escapes (imagePath service) ⟨inline, root⟩) : Reads escapes service root := by
  obtain ⟨htop, hservices, hservice, -⟩ := h
  rw [Value.IsMapping, Value.get_lines] at hservices hservice
  rw [Value.get_lines] at hservice
  exact ⟨htop.2, hservices.2, hservice.2⟩

/-- An entry's line holds the same key and the same text after it, whatever stands below. -/
theorem isBlank_inline_of_line {value : Value} {key : Bytes} {other : Entry}
    (hvalue : isBlank (value.get escapes key).inline = true)
    (hline : ∀ entry, find escapes key (entries value.lines) = some entry →
      other.line = entry.line)
    (hnew : find escapes key (entries value.lines) = none →
      (other.value escapes).inline = []) :
    isBlank (other.value escapes).inline = true := by
  cases hfound : find escapes key (entries value.lines) with
  | none => rw [hnew hfound]; rfl
  | some entry =>
      rw [Value.get, Value.entry, hfound] at hvalue
      rw [Entry.value, hline entry hfound]
      exact hvalue

/-- A service's lines read as they did, with its image set. -/
theorem setTo_withImage {value : Value} {serviceWidth : Nat} {inline : Bytes}
    (hwritten : Written escapes value.lines)
    (hdeep : ∀ line ∈ value.lines, isBlank line = false → serviceWidth < width line)
    (hinline : isBlank inline = true)
    (hvalue : ∀ line ∈ below escapes (ascii "image") value.lines, isBlank line = true)
    (hplain : plain image = some image) :
    Value.SetTo escapes image [ascii "image"] value
      ⟨inline, withImage escapes image serviceWidth value.lines⟩ := by
  refine Value.setTo_edit hwritten hinline rfl (fits_image hwritten hdeep) ⟨?_, ?_⟩
  · exact hvalue
  · rw [Entry.value, imageEntry, entryOf_imageLine]
    exact hplain

/-- The services' lines read as they did, with the service's image set. -/
theorem setTo_withService {value : Value} {inline : Bytes} (hwritten : Written escapes value.lines)
    (hdeep : ∀ line ∈ value.lines, isBlank line = false → 0 < width line)
    (hinline : isBlank inline = true)
    (hservice : isBlank (value.get escapes service).inline = true)
    (hbelow : Written escapes (below escapes service value.lines))
    (hnamed : find escapes service (entries value.lines) = none → quotable service = true)
    (hvalue : ∀ line ∈ below escapes (ascii "image") (below escapes service value.lines),
      isBlank line = true)
    (hplain : plain image = some image) :
    Value.SetTo escapes image [service, ascii "image"] value
      ⟨inline, withService escapes service image value.lines⟩ := by
  refine Value.setTo_edit hwritten hinline rfl (fits_service hwritten hdeep hbelow hnamed) ?_
  have hlines := Value.get_lines escapes value service
  have hline := @isBlank_inline_of_line escapes value service (serviceEntry escapes service image
    (widthOr (indentation value.lines) 2) (value.entry escapes service)) hservice
    (fun entry hfound => by rw [Value.entry, hfound]; rfl)
    (fun hfound => by
      rw [Value.entry, hfound, Entry.value, serviceEntry, Option.map_none, Option.getD_none,
        entryOf_serviceLine escapes (hnamed hfound)]
      rfl)
  rw [← hlines] at hbelow hvalue
  have hset := @setTo_withImage escapes image _ _ _ hbelow
    (fun line hline => lt_width_below hwritten hdeep (hlines ▸ hbelow) line (hlines ▸ hline))
    hline hvalue hplain
  rw [hlines] at hset
  exact hset

/-- The override reads as it did, with the service's image set. -/
theorem setTo_withServices (hmapped : Value.Mapped escapes (imagePath service) ⟨[], root⟩)
    (hpinnable : Pinnable escapes service image root) :
    Value.SetTo escapes image (imagePath service) ⟨[], root⟩
      ⟨[], withServices escapes service image root⟩ := by
  have hreads := Reads.of_mapped hmapped
  obtain ⟨-, ⟨hservices, -⟩, ⟨hservice, -⟩, -⟩ := hmapped
  have hdeep := width_below_pos hpinnable.agrees.column hreads.atServices
  have hlines := Value.get_lines escapes ⟨[], root⟩ (ascii "services")
  have hline := @isBlank_inline_of_line escapes ⟨[], root⟩ (ascii "services")
    (servicesEntry escapes service image (find escapes (ascii "services") (entries root))) hservices
    (fun entry hfound => by rw [hfound]; rfl)
    (fun hfound => by
      rw [hfound, Entry.value, servicesEntry, Option.map_none, Option.getD_none,
        entryOf_servicesLine]
      rfl)
  refine Value.setTo_edit hreads.atTop rfl rfl
    (fits_services hreads hpinnable.agrees.column) ?_
  have hset := @setTo_withService escapes service image (Value.get escapes ⟨[], root⟩
    (ascii "services")) _ (hlines ▸ hreads.atServices) (hlines ▸ hdeep) hline hservice
    (hlines ▸ hreads.atService) (hlines ▸ hpinnable.named) (hlines ▸ hpinnable.value)
    hpinnable.plain
  rw [hlines] at hset
  exact hset

end Set

/-! ## The pin again -/

section Again

variable {escapes : Escapes} {service image : Bytes}

theorem widthOr_self {known : Nat} (fallback : Nat) (h : 0 < known) :
    widthOr known fallback = known := if_pos h.ne'

theorem Takes.edit {names : Bytes → Bool} {key : Bytes} {make : Option Entry → Entry}
    {lines : List Bytes} (htakes : Takes escapes names key lines) (hwritten : Written escapes lines)
    (hfits : Fits escapes key lines (make (find escapes key (entries lines))))
    (hnames : names (make (find escapes key (entries lines))).line = true) :
    Takes escapes names key (edit escapes key make lines) where
  above := fun line hline hblank hat => by
    rw [(around_edit hwritten hfits).1] at hline
    have hedited := indentation_before ((around_edit hwritten hfits).1 ▸ hline) hblank
    rw [(around_edit hwritten hfits).1] at hedited
    rw [← hedited, indentation_before hline hblank] at hat
    exact htakes.above line hline hblank hat
  own := fun entry hentry => by
    rw [Option.mem_def, find_edit hwritten hfits] at hentry
    obtain rfl := Option.some.inj hentry
    exact hnames

theorem withImage_withImage {serviceWidth : Nat} {lines : List Bytes} (hservice : 0 < serviceWidth)
    (hwritten : Written escapes lines)
    (hdeep : ∀ line ∈ lines, isBlank line = false → serviceWidth < width line) :
    withImage escapes image serviceWidth (withImage escapes image serviceWidth lines) =
      withImage escapes image serviceWidth lines := by
  have hfits := @fits_image escapes image serviceWidth lines hwritten hdeep
  have hindent : indentation (withImage escapes image serviceWidth lines) =
      widthOr (indentation lines) (serviceWidth * 2) :=
    (indentation_edit hwritten hfits).trans (width_imageLine _ _)
  rw [withImage, hindent, widthOr_self _ (widthOr_pos (by omega))]
  exact edit_edit hwritten hfits rfl

theorem withService_withService {lines : List Bytes} (hwritten : Written escapes lines)
    (hdeep : ∀ line ∈ lines, isBlank line = false → 0 < width line)
    (hbelow : Written escapes (below escapes service lines))
    (hnamed : find escapes service (entries lines) = none → quotable service = true) :
    withService escapes service image (withService escapes service image lines) =
      withService escapes service image lines := by
  have hfits := @fits_service escapes service image lines hwritten hdeep hbelow hnamed
  have hindent : indentation (withService escapes service image lines) =
      widthOr (indentation lines) 2 :=
    (indentation_edit hwritten hfits).trans (width_serviceEntry hwritten hdeep)
  rw [withService, hindent, widthOr_self _ (widthOr_pos (by decide))]
  refine edit_edit hwritten hfits ?_
  have hagain := @withImage_withImage escapes image _ _ (widthOr_pos (by decide)) hbelow
    (lt_width_below hwritten hdeep hbelow)
  exact congrArg (Entry.mk _) hagain

theorem withServices_withServices {root : List Bytes} (hreads : Reads escapes service root)
    (hcolumn : indentation root = 0)
    (hnamed : find escapes service (entries (below escapes (ascii "services") root)) = none →
      quotable service = true) :
    withServices escapes service image (withServices escapes service image root) =
      withServices escapes service image root := by
  refine edit_edit hreads.atTop (fits_services hreads hcolumn) ?_
  have hagain := @withService_withService escapes service image _ hreads.atServices
    (width_below_pos hcolumn hreads.atServices) hreads.atService hnamed
  exact congrArg (Entry.mk _) hagain

theorem key_serviceLine (service : Bytes) (indent : Nat) :
    key (serviceLine service indent) service = some [] := by
  have hcontent := @content_replicate indent 34 (by decide) (service ++ [34, 58])
  rw [← serviceLine_eq, content] at hcontent
  rw [key, hcontent, unquoted, Bytes.cutPrefix, if_pos (by simp)]
  simp [unquoted, Bytes.cutPrefix, ascii]

theorem namesImage_imageLine (image : Bytes) (indent : Nat) :
    namesImage (imageLine image indent) = true := by
  have hcontent := @content_replicate indent 105 (by decide)
    ([109, 97, 103, 101] ++ 58 :: (32 :: image))
  rw [← List.cons_append, ← imageLine_eq] at hcontent
  rw [namesImage, drop_width, hcontent]
  rfl

variable {root : List Bytes}

/-- What a pinned document holds below the services and below the service. -/
theorem below_withServices (hreads : Reads escapes service root) (hcolumn : indentation root = 0)
    (hnamed : find escapes service (entries (below escapes (ascii "services") root)) = none →
      quotable service = true) :
    below escapes (ascii "services") (withServices escapes service image root) =
        withService escapes service image (below escapes (ascii "services") root) ∧
      below escapes service
          (withService escapes service image (below escapes (ascii "services") root)) =
        withImage escapes image
          (widthOr (indentation (below escapes (ascii "services") root)) 2)
          (below escapes service (below escapes (ascii "services") root)) :=
  ⟨below_edit hreads.atTop (fits_services hreads hcolumn),
    below_edit hreads.atServices (fits_service hreads.atServices
      (width_below_pos hcolumn hreads.atServices) hreads.atService hnamed)⟩

/-- A pinned document reads as mappings on the way to the image. -/
theorem Reads.set (hreads : Reads escapes service root) (hcolumn : indentation root = 0)
    (hnamed : find escapes service (entries (below escapes (ascii "services") root)) = none →
      quotable service = true) :
    Reads escapes service (withServices escapes service image root) := by
  have hdeep := width_below_pos hcolumn hreads.atServices
  obtain ⟨hservices, hservice⟩ := @below_withServices escapes service image root hreads hcolumn hnamed
  constructor
  · exact (written_edit hreads.atTop (fits_services hreads hcolumn)).1
  · rw [hservices]
    exact (written_edit hreads.atServices
      (fits_service hreads.atServices hdeep hreads.atService hnamed)).1
  · rw [hservices, hservice]
    exact (written_edit hreads.atService
      (fits_image hreads.atService (lt_width_below hreads.atServices hdeep hreads.atService))).1

/-- The pin takes in a pinned document what a reader does. -/
theorem Agrees.set (hagrees : Agrees escapes service root) (hreads : Reads escapes service root)
    (hnamed : find escapes service (entries (below escapes (ascii "services") root)) = none →
      quotable service = true) :
    Agrees escapes service (withServices escapes service image root) := by
  have hdeep := width_below_pos hagrees.column hreads.atServices
  obtain ⟨hservices, hservice⟩ :=
    @below_withServices escapes service image root hreads hagrees.column hnamed
  have hfits := @fits_services escapes service image root hreads hagrees.column
  constructor
  · exact (indentation_edit hreads.atTop hfits).trans
      (width_servicesEntry hreads.atTop hagrees.column)
  · refine hagrees.atServices.edit hreads.atTop hfits ?_
    cases hfound : find escapes (ascii "services") (entries root) with
    | none => rfl
    | some entry => exact hagrees.atServices.own entry hfound
  · rw [hservices]
    refine hagrees.atService.edit hreads.atServices
      (fits_service hreads.atServices hdeep hreads.atService hnamed) ?_
    cases hfound : find escapes service (entries (below escapes (ascii "services") root)) with
    | none =>
        rw [serviceEntry, Option.map_none, Option.getD_none, namesKey, key_serviceLine]
        rfl
    | some entry => exact hagrees.atService.own entry hfound
  · rw [hservices, hservice]
    refine hagrees.atImage.edit hreads.atService
      (fits_image hreads.atService (lt_width_below hreads.atServices hdeep hreads.atService)) ?_
    exact namesImage_imageLine _ _

/-- What is accepted once is accepted again. -/
theorem accepts_withServices {first : List Bytes} (hreads : Reads escapes service root)
    (hcolumn : indentation root = 0)
    (hnamed : find escapes service (entries (below escapes (ascii "services") root)) = none →
      quotable service = true)
    (h : accepts escapes service first root = true) :
    accepts escapes service first (withServices escapes service image root) = true := by
  have hdeep := width_below_pos hcolumn hreads.atServices
  have hfits := @fits_services escapes service image root hreads hcolumn
  have hinner := @fits_service escapes service image _ hreads.atServices hdeep hreads.atService hnamed
  obtain ⟨hservices, -⟩ := @below_withServices escapes service image root hreads hcolumn hnamed
  have hbefore : before escapes (ascii "services") (withServices escapes service image root) =
      before escapes (ascii "services") root := (around_edit hreads.atTop hfits).1
  rw [accepts, Bool.and_eq_true, Bool.and_eq_true] at h
  obtain ⟨⟨hflow, hbare⟩, hbareService⟩ := h
  rw [accepts, Bool.and_eq_true, Bool.and_eq_true, hbefore, hservices]
  refine ⟨⟨hflow, ?_⟩, ?_⟩
  · rw [bareEntry, withServices, find_edit hreads.atTop hfits, Option.all_some]
    cases hfound : find escapes (ascii "services") (entries root) with
    | none => rfl
    | some entry =>
        rw [bareEntry, hfound] at hbare
        exact hbare
  · rw [bareEntry, withService, find_edit hreads.atServices hinner, Option.all_some]
    cases hfound : find escapes service (entries (below escapes (ascii "services") root)) with
    | none =>
        rw [serviceEntry, Option.map_none, Option.getD_none, bare, key_serviceLine]
        rfl
    | some entry =>
        rw [bareEntry, hfound] at hbareService
        exact hbareService

end Again

/-! ## Texts -/

theorem go_append (piece : Bytes) {line : Bytes} (h : 10 ∉ line) (rest : Bytes) :
    splitSeq.go [10] piece 0 (line ++ 10 :: rest) =
      (piece ++ line) :: splitSeq.go [10] [] 0 rest := by
  induction line generalizing piece with
  | nil => simp [splitSeq.go, List.isPrefixOf]
  | cons byte line ih =>
      have hbyte : ¬ 10 = byte := by
        rintro rfl
        exact h List.mem_cons_self
      have hline : 10 ∉ line := fun hmem => h (List.mem_cons_of_mem _ hmem)
      simp [splitSeq.go, List.isPrefixOf, hbyte, ih _ hline]

theorem splitSeq_unlines {lines : List Bytes} (h : ∀ line ∈ lines, 10 ∉ line) :
    splitSeq [10] (unlines lines) = lines ++ [[]] := by
  rw [splitSeq]
  induction lines with
  | nil => rfl
  | cons line lines ih =>
      rw [List.forall_mem_cons] at h
      have hlines : unlines (line :: lines) = line ++ 10 :: unlines lines := by simp [unlines]
      rw [hlines, go_append [] h.1, ih h.2]
      rfl

/-- Lines that are printed are read as themselves. -/
theorem linesOf_unlines {lines : List Bytes} (h : ∀ line ∈ lines, 10 ∉ line) :
    linesOf (unlines lines) = lines := by
  have hends : [10].isSuffixOf (unlines lines) = true ∨ unlines lines = [] := by
    cases lines using List.reverseRecOn with
    | nil => exact .inr rfl
    | append_singleton lines line =>
        left
        rw [unlines_append, List.isSuffixOf_iff_suffix]
        exact ⟨unlines lines ++ line, by simp [unlines]⟩
  rw [linesOf, if_pos hends, splitSeq_unlines h, List.dropLast_concat]

theorem not_mem_of_mem_go {piece text line : Bytes} {skip : Nat} (hpiece : 10 ∉ piece)
    (h : line ∈ splitSeq.go [10] piece skip text) : 10 ∉ line := by
  induction text generalizing piece skip with
  | nil =>
      obtain rfl : line = piece := by cases skip <;> simpa [splitSeq.go] using h
      exact hpiece
  | cons byte text ih =>
      cases skip with
      | succ skip => exact ih hpiece (by simpa [splitSeq.go] using h)
      | zero =>
          rw [splitSeq.go] at h
          split_ifs at h with hbreak
          · rcases List.mem_cons.mp h with rfl | hlater
            · exact hpiece
            · exact ih (by simp) hlater
          · have hbyte : ¬ 10 = byte := by simpa [List.isPrefixOf] using hbreak
            exact ih (by simp [hpiece, hbyte]) h

/-- A line holds no line break. -/
theorem not_mem_of_mem_linesOf {text line : Bytes} (h : line ∈ linesOf text) : 10 ∉ line := by
  unfold linesOf at h
  split_ifs at h
  · exact @not_mem_of_mem_go [] _ _ _ (by simp) (List.dropLast_subset _ h)
  · exact @not_mem_of_mem_go [] _ _ _ (by simp) h

/-- One text's lines are another's but for a line that is replaced, or for lines that are
added. -/
def Replaced (old : Option Bytes) (lines after : List Bytes) : Prop :=
  ∃ first new last, lines = first ++ old.toList ++ last ∧ after = first ++ new ++ last

section Texts

variable {escapes : Escapes} {service image : Bytes}

theorem Replaced.within {old : Option Bytes} {lines after : List Bytes}
    (h : Replaced old lines after) (above under : List Bytes) :
    Replaced old (above ++ lines ++ under) (above ++ after ++ under) := by
  obtain ⟨first, new, last, rfl, rfl⟩ := h
  exact ⟨above ++ first, new, last ++ under, by simp, by simp⟩

theorem replaced_withImage (serviceWidth : Nat) (lines : List Bytes) :
    Replaced ((find escapes (ascii "image") (entries lines)).map Entry.line) lines
      (withImage escapes image serviceWidth lines) := by
  rw [withImage, edit]
  cases hfound : find escapes (ascii "image") (entries lines) with
  | none =>
      obtain ⟨hbefore, hafter⟩ := lines_of_find_eq_none hfound
      rw [hbefore, hafter]
      exact ⟨lines, _, [], by simp, rfl⟩
  | some entry =>
      refine ⟨before escapes (ascii "image") lines, [imageLine image _],
        entry.body ++ after escapes (ascii "image") lines, ?_, by simp [imageEntry, Entry.lines]; rfl⟩
      conv_lhs => rw [lines_of_find_eq_some hfound]
      simp [Entry.lines]

/-- Around an entry whose line stays, the lines are those around its body. -/
theorem replaced_edit {key : Bytes} {make : Option Entry → Entry} {lines : List Bytes}
    {old : Option Bytes}
    (hline : ∀ entry, find escapes key (entries lines) = some entry →
      (make (some entry)).line = entry.line ∧ Replaced old entry.body (make (some entry)).body)
    (hnone : find escapes key (entries lines) = none → old = none) :
    Replaced old lines (edit escapes key make lines) := by
  rw [edit]
  cases hfound : find escapes key (entries lines) with
  | none =>
      obtain ⟨hbefore, hafter⟩ := lines_of_find_eq_none hfound
      rw [hbefore, hafter, hnone hfound]
      exact ⟨lines, _, [], by simp, rfl⟩
  | some entry =>
      obtain ⟨hsame, hbody⟩ := hline entry hfound
      obtain ⟨first, new, last, hfirst, hlast⟩ :=
        hbody.within (before escapes key lines ++ [entry.line]) (after escapes key lines)
      refine ⟨first, new, last, ?_, ?_⟩
      · rw [← hfirst]
        conv_lhs => rw [lines_of_find_eq_some hfound]
        simp [Entry.lines]
      · rw [← hlast, Entry.lines, hsame]
        simp

theorem replaced_withService (lines : List Bytes) :
    Replaced ((find escapes (ascii "image") (entries (below escapes service lines))).map Entry.line)
      lines (withService escapes service image lines) := by
  refine replaced_edit (fun entry hfound => ⟨rfl, ?_⟩) fun hfound => ?_
  · rw [below_eq hfound]
    exact replaced_withImage _ _
  · rw [below, hfound]
    rfl

/-- Only the image's line is replaced: every other one is kept, in order. -/
theorem replaced_withServices (root : List Bytes) :
    Replaced ((find escapes (ascii "image") (entries (below escapes service
      (below escapes (ascii "services") root)))).map Entry.line) root
      (withServices escapes service image root) := by
  refine replaced_edit (fun entry hfound => ⟨rfl, ?_⟩) fun hfound => ?_
  · rw [below_eq hfound]
    exact replaced_withService _
  · have hnone : below escapes (ascii "services") root = [] := by
      rw [below, hfound]
      rfl
    rw [hnone]
    rfl

/-! No line that is printed holds a line break. -/

theorem not_mem_of_quotable {text : Bytes} (h : quotable text = true) : 10 ∉ text := by
  intro hmem
  have hbyte := List.all_eq_true.mp h 10 hmem
  revert hbyte
  decide

theorem not_mem_of_plain {text : Bytes} (h : plain text = some text) : 10 ∉ text := by
  unfold plain at h
  dsimp only at h
  split_ifs at h with htext
  intro hmem
  rw [← List.takeWhile_append_dropWhile (p := isSpace) (l := text)] at hmem
  rcases List.mem_append.mp hmem with hspace | hmem
  · have hbyte : isSpace 10 = true := List.mem_takeWhile_imp hspace
    revert hbyte
    decide
  · have hbyte := List.all_eq_true.mp htext.2.2 10 hmem
    revert hbyte
    decide

theorem not_mem_imageLine {image : Bytes} (h : 10 ∉ image) (indent : Nat) :
    10 ∉ imageLine image indent := by
  rw [imageLine_eq]
  simp [h]

theorem not_mem_serviceLine {service : Bytes} (h : 10 ∉ service) (indent : Nat) :
    10 ∉ serviceLine service indent := by
  rw [serviceLine_eq]
  simp [h]

theorem not_mem_withImage {serviceWidth : Nat} {lines : List Bytes} (himage : 10 ∉ image)
    (h : ∀ line ∈ lines, 10 ∉ line) :
    ∀ line ∈ withImage escapes image serviceWidth lines, 10 ∉ line := by
  refine forall_mem_edit (fun line hline => ?_) h
  rcases List.mem_cons.mp hline with rfl | hline
  · exact not_mem_imageLine himage _
  · exact h line (mem_of_mem_below hline)

theorem not_mem_withService {lines : List Bytes} (himage : 10 ∉ image)
    (hnamed : find escapes service (entries lines) = none → quotable service = true)
    (h : ∀ line ∈ lines, 10 ∉ line) :
    ∀ line ∈ withService escapes service image lines, 10 ∉ line := by
  refine forall_mem_edit (fun line hline => ?_) h
  rcases List.mem_cons.mp hline with rfl | hline
  · cases hfound : find escapes service (entries lines) with
    | none => exact not_mem_serviceLine (not_mem_of_quotable (hnamed hfound)) _
    | some entry =>
        apply h
        rw [lines_of_find_eq_some hfound]
        simp [serviceEntry, Entry.lines]
  · exact not_mem_withImage himage (fun line hline => h line (mem_of_mem_below hline)) line hline

theorem not_mem_withServices {root : List Bytes} (himage : 10 ∉ image)
    (hnamed : find escapes service (entries (below escapes (ascii "services") root)) = none →
      quotable service = true)
    (h : ∀ line ∈ root, 10 ∉ line) :
    ∀ line ∈ withServices escapes service image root, 10 ∉ line := by
  refine forall_mem_edit (fun line hline => ?_) h
  rcases List.mem_cons.mp hline with rfl | hline
  · cases hfound : find escapes (ascii "services") (entries root) with
    | none =>
        show 10 ∉ ascii "services:"
        decide
    | some entry =>
        apply h
        rw [lines_of_find_eq_some hfound]
        simp [servicesEntry, Entry.lines]
  · exact not_mem_withService himage hnamed
      (fun line hline => h line (mem_of_mem_below hline)) line hline

/-- The document of a text, as a value. -/
def valueOf (text : Bytes) : Value := ⟨[], (document (linesOf text)).2⟩

/-- The line of a service's image in an override. -/
def lineOfImage (escapes : Escapes) (service override : Bytes) : Option Bytes :=
  (find escapes (ascii "image") (entries (below escapes service
    (below escapes (ascii "services") (valueOf override).lines)))).map Entry.line

/-- The pin of an override it follows a reader through: what it prints, where it refuses no
line. -/
theorem pin_eq {override : Bytes} (hreads : Reads escapes service (valueOf override).lines)
    (hagrees : Agrees escapes service (valueOf override).lines) :
    pin override service image =
      if accepts escapes service (document (linesOf override)).1 (valueOf override).lines then
        some (unlines ((document (linesOf override)).1 ++
          withServices escapes service image (valueOf override).lines))
      else none := by
  have hends := @Pinner.ends_withServices escapes service image (document (linesOf override)).1
    (valueOf override).lines (fun line hline => of_mem_document hline) hreads hagrees
  rw [valueOf, document_append] at hends
  exact hends

/-- A pinned override is what stood above its document, and the document with the image set. -/
theorem linesOf_pinned {override : Bytes} (hreads : Reads escapes service (valueOf override).lines)
    (hpinnable : Pinnable escapes service image (valueOf override).lines) :
    let result := unlines ((document (linesOf override)).1 ++
      withServices escapes service image (valueOf override).lines)
    document (linesOf result) = ((document (linesOf override)).1,
      withServices escapes service image (valueOf override).lines) := by
  intro result
  have hlines : ∀ line ∈ (document (linesOf override)).1 ++ (valueOf override).lines, 10 ∉ line := by
    intro line hline
    rw [valueOf, document_append] at hline
    exact not_mem_of_mem_linesOf hline
  have hprinted : ∀ line ∈ (document (linesOf override)).1 ++
      withServices escapes service image (valueOf override).lines, 10 ∉ line := by
    intro line hline
    rcases List.mem_append.mp hline with hfirst | hroot
    · exact hlines line (List.mem_append_left _ hfirst)
    · exact not_mem_withServices (not_mem_of_plain hpinnable.plain) hpinnable.named
        (fun line hline => hlines line (List.mem_append_right _ hline)) line hroot
  rw [linesOf_unlines hprinted]
  exact document_append_of_written _
    (hreads.set hpinnable.agrees.column hpinnable.named).atTop

/-- Where the pin follows a reader to the service's image, the service can be written as a key
and the image on one line, the pinned override reads as the override with the image set and
nothing else changed, no line but the image's is replaced, and the pin leaves it as it is. -/
theorem pin_sets_image (escapes : Escapes) (override service image result : Bytes)
    (hmapped : (valueOf override).Mapped escapes (imagePath service))
    (hpinnable : Pinnable escapes service image (valueOf override).lines)
    (hpin : pin override service image = some result) :
    Value.SetTo escapes image (imagePath service) (valueOf override) (valueOf result) ∧
      Replaced (lineOfImage escapes service override) (linesOf override) (linesOf result) ∧
      pin result service image = some result := by
  have hreads : Reads escapes service (valueOf override).lines := Reads.of_mapped hmapped
  have hdocument := linesOf_pinned hreads hpinnable
  rw [pin_eq hreads hpinnable.agrees] at hpin
  split_ifs at hpin with haccepts
  obtain rfl := Option.some.inj hpin
  have hvalue : valueOf (unlines ((document (linesOf override)).1 ++
      withServices escapes service image (valueOf override).lines)) =
        ⟨[], withServices escapes service image (valueOf override).lines⟩ := by
    conv_lhs => rw [valueOf, hdocument]
  refine ⟨?_, ?_, ?_⟩
  · rw [hvalue]
    exact setTo_withServices hmapped hpinnable
  · have hreplaced := (@replaced_withServices escapes service image (valueOf override).lines).within
      (document (linesOf override)).1 []
    have hlines := document_append (linesOf (unlines ((document (linesOf override)).1 ++
      withServices escapes service image (valueOf override).lines)))
    rw [hdocument] at hlines
    rw [List.append_nil, List.append_nil, hlines] at hreplaced
    conv at hreplaced =>
      arg 2
      rw [valueOf, document_append]
    exact hreplaced
  · have hagain := @Reads.set escapes service image _ hreads hpinnable.agrees.column
      hpinnable.named
    have hagrees := @Agrees.set escapes service image _ hpinnable.agrees hreads hpinnable.named
    have haccepted := @accepts_withServices escapes service image _ _ hreads
      hpinnable.agrees.column hpinnable.named haccepts
    have hsame := @withServices_withServices escapes service image _ hreads
      hpinnable.agrees.column hpinnable.named
    rw [pin_eq (by rwa [hvalue]) (by rwa [hvalue]), hdocument, hvalue]
    refine (if_pos haccepted).trans ?_
    rw [hsame]

end Texts

/-! ## A quoted image key -/

/-- The reading of texts with no escape in them. -/
def plainEscapes : Escapes where
  decode text := if 92 ∈ text then none else some text
  decode_plain := fun _ h => if_neg h

/-- A service's override as it is usually written. -/
def plainOverride : Bytes := ascii "services:\n  \"app\":\n    ports: []\n    image: old\n"

/-- The image that is there is replaced. -/
theorem plainOverride_pinned :
    let result := ascii "services:\n  \"app\":\n    ports: []\n    image: new\n"
    Value.SetTo plainEscapes (ascii "new") (imagePath (ascii "app")) (valueOf plainOverride)
        (valueOf result) ∧
      Replaced (lineOfImage plainEscapes (ascii "app") plainOverride) (linesOf plainOverride)
        (linesOf result) ∧
      pin result (ascii "app") (ascii "new") = some result :=
  pin_sets_image plainEscapes plainOverride (ascii "app") (ascii "new") _ (by decide +kernel)
    (by decide +kernel) (by decide +kernel)

/-- An image whose key is quoted is not taken for one: a second is written below it. -/
theorem quoted_image_pinned_twice :
    let override := ascii "services:\n  app:\n    \"image\": old\n"
    let result := ascii "services:\n  app:\n    \"image\": old\n    image: new\n"
    (valueOf override).Mapped plainEscapes (imagePath (ascii "app")) ∧
      pin override (ascii "app") (ascii "new") = some result ∧
      ¬ Value.SetTo plainEscapes (ascii "new") (imagePath (ascii "app")) (valueOf override)
        (valueOf result) := by
  refine ⟨by decide +kernel, by decide +kernel, fun hset => ?_⟩
  have hmapped := Value.mapped_of_setTo hset
  revert hmapped
  decide

end SeverinoHQ.Host
