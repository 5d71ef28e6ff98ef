import LocalDrop.Bodies

/-! The parts of a multipart body and the file that is made of them. `iterate_post` opens one
stage, for the first "file" part that has a filename, and appends to it what later "file"
parts bring; it does not look at the offset that tells one part from the next. -/
namespace LocalDrop
open Lib

/-- A part, cut into the pieces in which the post processor delivers it. A part without data
is delivered as an empty piece. -/
structure Part where
  key : CString
  filename : Option CString
  pieces : List Bytes
  delivered : pieces ≠ []

def Part.content (part : Part) : Bytes := part.pieces.flatten

def Part.storedName (part : Part) : CString := (sanitizeFilename part.filename).str

def PostItem.call (item : PostItem) : CString × Option CString × Bytes × Nat :=
  (item.key, item.filename, item.data, item.off)

def pieceCalls (key : CString) (filename : Option CString) :
    Nat → List Bytes → List (CString × Option CString × Bytes × Nat)
  | _, [] => []
  | off, data :: pieces =>
      (key, filename, data, off) :: pieceCalls key filename (off + data.length) pieces

def Part.calls (part : Part) : List (CString × Option CString × Bytes × Nat) :=
  pieceCalls part.key part.filename 0 part.pieces

def Delivers (parts : List Part) (items : List PostItem) : Prop :=
  items.map PostItem.call = parts.flatMap Part.calls

instance (parts : List Part) (items : List PostItem) : Decidable (Delivers parts items) :=
  inferInstanceAs (Decidable (_ = _))

def fileItems (items : List PostItem) : List PostItem :=
  items.filter fun item => item.key = .lit "file"

def storedItems (items : List PostItem) : List PostItem :=
  (fileItems items).dropWhile fun item => item.filename.isNone

def fileParts (parts : List Part) : List Part := parts.filter fun part => part.key = .lit "file"

/-- The "file" parts from the first one with a filename on, and those in front of it. -/
def storedParts (parts : List Part) : List Part :=
  (fileParts parts).dropWhile fun part => part.filename.isNone

def skippedParts (parts : List Part) : List Part :=
  (fileParts parts).takeWhile fun part => part.filename.isNone

section delivery
variable {key : CString} {filename : Option CString} {pieces : List Bytes} {off : Nat}
  {items : List PostItem}

theorem mem_pieceCalls (h : items.map PostItem.call = pieceCalls key filename off pieces) :
    ∀ item ∈ items, item.key = key ∧ item.filename = filename := by
  induction pieces generalizing items off with
  | nil =>
      rw [List.map_eq_nil_iff.mp h]
      simp
  | cons data pieces ih =>
      obtain ⟨first, rest, rfl, hfirst, hrest⟩ := List.map_eq_cons_iff.mp h
      simp only [PostItem.call, Prod.mk.injEq] at hfirst
      intro item hitem
      rcases List.mem_cons.mp hitem with rfl | hitem
      · exact ⟨hfirst.1, hfirst.2.1⟩
      · exact ih hrest item hitem

theorem flatMap_pieceCalls (h : items.map PostItem.call = pieceCalls key filename off pieces) :
    items.flatMap PostItem.data = pieces.flatten := by
  induction pieces generalizing items off with
  | nil =>
      rw [List.map_eq_nil_iff.mp h]
      rfl
  | cons data pieces ih =>
      obtain ⟨first, rest, rfl, hfirst, hrest⟩ := List.map_eq_cons_iff.mp h
      simp only [PostItem.call, Prod.mk.injEq] at hfirst
      rw [List.flatMap_cons, ih hrest, hfirst.2.2.1, List.flatten_cons]

theorem ne_nil_of_pieceCalls (hpieces : pieces ≠ [])
    (h : items.map PostItem.call = pieceCalls key filename off pieces) : items ≠ [] := by
  rintro rfl
  cases pieces with
  | nil => contradiction
  | cons data pieces => simp [pieceCalls] at h

end delivery

theorem delivers_cons {part : Part} {parts : List Part} {items : List PostItem}
    (h : Delivers (part :: parts) items) :
    ∃ own others, items = own ++ others ∧ own.map PostItem.call = part.calls ∧
      Delivers parts others := by
  rw [Delivers, List.flatMap_cons] at h
  obtain ⟨own, others, rfl, hown, hothers⟩ := List.map_eq_append_iff.mp h
  exact ⟨own, others, rfl, hown, hothers⟩

theorem fileItems_part {part : Part} {own : List PostItem}
    (h : own.map PostItem.call = part.calls) (others : List PostItem) :
    fileItems (own ++ others) =
      if part.key = .lit "file" then own ++ fileItems others else fileItems others := by
  have hkeys := mem_pieceCalls h
  rw [fileItems, List.filter_append]
  split
  · rename_i hkey
    rw [List.filter_eq_self.mpr]
    · rfl
    · intro item hitem
      simp [(hkeys item hitem).1, hkey]
  · rename_i hkey
    rw [List.filter_eq_nil_iff.mpr]
    · rfl
    · intro item hitem
      simp [(hkeys item hitem).1, hkey]

theorem flatMap_fileItems {parts : List Part} {items : List PostItem} (h : Delivers parts items) :
    (fileItems items).flatMap PostItem.data = (fileParts parts).flatMap Part.content := by
  induction parts generalizing items with
  | nil =>
      rw [List.map_eq_nil_iff.mp h]
      rfl
  | cons part parts ih =>
      obtain ⟨own, others, rfl, hown, hothers⟩ := delivers_cons h
      rw [fileItems_part hown]
      unfold fileParts at ih ⊢
      by_cases hkey : part.key = .lit "file"
      · rw [if_pos hkey, List.filter_cons_of_pos (by simpa using hkey), List.flatMap_append,
          List.flatMap_cons, ih hothers, flatMap_pieceCalls hown]
        rfl
      · rw [if_neg hkey, List.filter_cons_of_neg (by simpa using hkey), ih hothers]

/-- What is written is what the stored parts hold, under the name of the first of them. -/
theorem storedItems_parts {parts : List Part} {items : List PostItem} (h : Delivers parts items) :
    (storedItems items).flatMap PostItem.data = (storedParts parts).flatMap Part.content ∧
      (storedItems items).head?.map PostItem.filename =
        (storedParts parts).head?.map Part.filename := by
  induction parts generalizing items with
  | nil =>
      rw [List.map_eq_nil_iff.mp h]
      exact ⟨rfl, rfl⟩
  | cons part parts ih =>
      obtain ⟨own, others, rfl, hown, hothers⟩ := delivers_cons h
      have hlater := ih hothers
      unfold storedItems storedParts fileParts at hlater ⊢
      rw [fileItems_part hown]
      by_cases hkey : part.key = .lit "file"
      · rw [if_pos hkey, List.filter_cons_of_pos (by simpa using hkey)]
        obtain ⟨first, rest, rfl⟩ := List.exists_cons_of_ne_nil
          (ne_nil_of_pieceCalls part.delivered hown)
        have hnames := fun item hitem => (mem_pieceCalls hown item hitem).2
        cases hname : part.filename with
        | none =>
            rw [List.dropWhile_append_of_pos (by simpa [hname] using hnames),
              List.dropWhile_cons_of_pos (by simp [hname])]
            exact hlater
        | some name =>
            have hfirst : first.filename = some name := by
              rw [← hname]
              exact hnames first (by simp)
            rw [List.cons_append, List.dropWhile_cons_of_neg (by simp [hfirst]),
              List.dropWhile_cons_of_neg (by simp [hname])]
            refine ⟨?_, by simp [hfirst, hname]⟩
            rw [← List.cons_append, List.flatMap_append, flatMap_fileItems hothers,
              flatMap_pieceCalls hown]
            rfl
      · rw [if_neg hkey, List.filter_cons_of_neg (by simpa using hkey)]
        exact hlater

/-- From the first "file" part with a filename on, one part at most has data, and it goes by
the same stored name as the first; or a part in front of these, which is not stored, has by
chance the bytes and the name of what is. -/
def SingleFile (parts : List Part) : Prop :=
  ∃ first rest, storedParts parts = first :: rest ∧
    ((∃ before part later, first :: rest = before ++ part :: later ∧
      (∀ other ∈ before ++ later, other.content = []) ∧ part.storedName = first.storedName) ∨
    ∃ part ∈ skippedParts parts, part.storedName = first.storedName ∧
      part.content = (first :: rest).flatMap Part.content)

theorem fileParts_eq (parts : List Part) :
    fileParts parts = skippedParts parts ++ storedParts parts :=
  List.takeWhile_append_dropWhile.symm

theorem flatMap_content_eq_iff {before later : List Part} {part : Part} :
    (before ++ part :: later).flatMap Part.content = part.content ↔
      ∀ other ∈ before ++ later, other.content = [] := by
  rw [List.flatMap_append, List.flatMap_cons]
  constructor
  · intro h
    have hlength := congrArg List.length h
    simp only [List.length_append] at hlength
    have hbefore : before.flatMap Part.content = [] := List.length_eq_zero_iff.mp (by omega)
    have hlater : later.flatMap Part.content = [] := List.length_eq_zero_iff.mp (by omega)
    intro other hother
    rcases List.mem_append.mp hother with hother | hother
    · exact List.flatMap_eq_nil_iff.mp hbefore other hother
    · exact List.flatMap_eq_nil_iff.mp hlater other hother
  · intro h
    have hbefore : before.flatMap Part.content = [] :=
      List.flatMap_eq_nil_iff.mpr fun other hother => h other (by simp [hother])
    have hlater : later.flatMap Part.content = [] :=
      List.flatMap_eq_nil_iff.mpr fun other hother => h other (by simp [hother])
    rw [hbefore, hlater, List.nil_append, List.append_nil]

theorem singleFile_iff {parts rest : List Part} {first : Part}
    (h : storedParts parts = first :: rest) :
    (∃ part ∈ fileParts parts, part.content = (storedParts parts).flatMap Part.content ∧
      part.storedName = first.storedName) ↔ SingleFile parts := by
  rw [fileParts_eq]
  constructor
  · rintro ⟨part, hpart, hcontent, hname⟩
    rw [h] at hcontent
    refine ⟨first, rest, h, ?_⟩
    rcases List.mem_append.mp hpart with hskipped | hstored
    · exact .inr ⟨part, hskipped, hname, hcontent⟩
    · rw [h] at hstored
      obtain ⟨before, later, heq⟩ := List.append_of_mem hstored
      rw [heq] at hcontent
      exact .inl ⟨before, part, later, heq, flatMap_content_eq_iff.mp hcontent.symm, hname⟩
  · rintro ⟨first', rest', h', hone⟩
    cases h.symm.trans h'
    rw [h]
    rcases hone with ⟨before, part, later, heq, hempty, hname⟩ | ⟨part, hskipped, hname, hcontent⟩
    · rw [heq]
      exact ⟨part, by simp, (flatMap_content_eq_iff.mpr hempty).symm, hname⟩
    · exact ⟨part, List.mem_append_left _ hskipped, hcontent, hname⟩

theorem storedItems_concat (items : List PostItem) (item : PostItem) :
    storedItems (items ++ [item]) =
      if item.key ≠ .lit "file" then storedItems items
      else if storedItems items = [] then (if item.filename = none then [] else [item])
      else storedItems items ++ [item] := by
  unfold storedItems fileItems
  by_cases hkey : item.key = .lit "file"
  · rw [List.filter_append, List.filter_cons_of_pos (by simpa using hkey), List.filter_nil,
      List.dropWhile_append]
    simp only [List.isEmpty_iff, ne_eq, hkey, not_true_eq_false, if_false]
    split
    · cases hname : item.filename <;> simp [hname]
    · rfl
  · rw [List.filter_append, List.filter_cons_of_neg (by simpa using hkey), List.filter_nil,
      List.append_nil, if_pos hkey]

def StageNamed (stage : UploadStage) : Prop :=
  ∃ (now : Time) (random : RandomBytes 8) (token : CString), 0 ≤ now ∧ now ≤ timeMax ∧
    cryptoRandomToken random = some token ∧
    stage.stagingPath = stagingPath now token stage.originalName.str

structure Received (items : List PostItem) (fs : FileSystem) (info : ConnectionInfo) : Prop where
  closed : storedItems items = [] → info.uploadInProgress = false
  open_ : ∀ first rest, storedItems items = first :: rest → info.uploadInProgress = true ∧
    info.uploadStage.originalName = sanitizeFilename first.filename ∧ StageNamed info.uploadStage ∧
    ∀ file, fs info.uploadStage.stagingPath.str = some file →
      file.content = (storedItems items).flatMap PostItem.data

section parsing
variable {fs fs' : FileSystem} {id : Nat} {info info' : ConnectionInfo} {now : Time}
  {items : List PostItem} {item : PostItem}

theorem Received.skip (h : Received items fs info)
    (hitems : storedItems (items ++ [item]) = storedItems items)
    (hstage : info'.uploadStage = info.uploadStage)
    (hprogress : info'.uploadInProgress = info.uploadInProgress) :
    Received (items ++ [item]) fs info' where
  closed hnone := by
    rw [hprogress]
    exact h.closed (hitems ▸ hnone)
  open_ first rest hsome := by
    rw [hprogress, hstage, hitems]
    exact h.open_ first rest (hitems ▸ hsome)

theorem openStage_opens (hnow : 0 ≤ now ∧ now ≤ timeMax) (hname : item.filename ≠ none)
    (hclosed : info.uploadStage.Closed)
    (hok : (openStage fs id info now item).2.2 = true) :
    (openStage fs id info now item).2.1.uploadInProgress = true ∧
      (openStage fs id info now item).2.1.uploadStage.fp = true ∧
      (openStage fs id info now item).2.1.uploadStage.originalName =
        sanitizeFilename item.filename ∧
      StageNamed (openStage fs id info now item).2.1.uploadStage ∧
      ∀ file, (openStage fs id info now item).1
        (openStage fs id info now item).2.1.uploadStage.stagingPath.str = some file →
        file.content = [] := by
  have hopens : item.filename.isSome ∧ info.uploadStage.fp = false ∧
      info.uploadStage.sealed = false :=
    ⟨Option.isSome_iff_ne_none.mpr hname, hclosed.1, hclosed.2.1⟩
  unfold openStage uploadStageOpen at hok ⊢
  rw [if_pos hopens] at hok ⊢
  dsimp only at hok ⊢
  cases htoken : cryptoRandomToken item.random with
  | none => simp [htoken] at hok
  | some token =>
      simp only [htoken] at hok ⊢
      cases hopened : item.opened with
      | false => simp [hopened] at hok
      | true =>
          simp only [if_true]
          refine ⟨trivial, trivial, trivial,
            ⟨now, item.random, token, hnow.1, hnow.2, htoken, rfl⟩, ?_⟩
          intro file hfile
          rw [Function.update_self, Option.some.injEq] at hfile
          rw [← hfile]

theorem openStage_failed (h : (openStage fs id info now item).2.2 = false) :
    400 ≤ (openStage fs id info now item).2.1.responseStatus := by
  unfold openStage at h ⊢
  split at h
  · rename_i hopens
    rw [if_pos hopens]
    split at h
    · exact show 400 ≤ 500 by decide
    · contradiction
  · contradiction

theorem writeStage_writes (hfp : info.uploadStage.fp = true)
    (hok : (writeStage fs info now item).2.responseStatus < 400) :
    (writeStage fs info now item).2.uploadInProgress = info.uploadInProgress ∧
      (writeStage fs info now item).2.uploadStage.originalName = info.uploadStage.originalName ∧
      (writeStage fs info now item).2.uploadStage.stagingPath = info.uploadStage.stagingPath ∧
      ∀ file, (writeStage fs info now item).1 info.uploadStage.stagingPath.str = some file →
        ∃ old, fs info.uploadStage.stagingPath.str = some old ∧
          file.content = old.content ++ item.data := by
  -- Both statuses a failed write can record are errors.
  have hfailed : ∀ found : Bool, ¬ (if found = true then 413 else 500) < 400 := by decide
  unfold writeStage at hok ⊢
  by_cases hdata : item.data = []
  · rw [if_neg (by simp [hdata])]
    refine ⟨rfl, rfl, rfl, fun file hfile => ⟨file, hfile, by simp [hdata]⟩⟩
  · rw [if_pos ⟨.inl hfp, hdata⟩] at hok ⊢
    unfold uploadStageWrite at hok ⊢
    simp only [hfp, Bool.not_true, Bool.false_eq_true, if_false] at hok ⊢
    by_cases hlimit : maxFileSize < (info.uploadStage.bytesReceived + item.data.length) % 2 ^ 64
    · rw [if_pos hlimit] at hok
      dsimp only at hok
      exact absurd hok (hfailed _)
    · rw [if_neg hlimit] at hok ⊢
      by_cases hshort : item.written < item.data.length
      · rw [if_pos hshort] at hok
        dsimp only at hok
        exact absurd hok (hfailed _)
      · rw [if_neg hshort]
        refine ⟨rfl, rfl, rfl, fun file hfile => ?_⟩
        dsimp only at hfile
        rw [FileSystem.modify, Function.update_self] at hfile
        obtain ⟨old, hold, rfl⟩ := Option.map_eq_some_iff.mp hfile
        refine ⟨old, hold, ?_⟩
        rw [File.append, List.take_of_length_le (by omega)]

theorem writeStage_received {first : PostItem} {rest : List PostItem}
    (hitems : storedItems (items ++ [item]) = first :: rest)
    (hprogress : info.uploadInProgress = true) (hfp : info.uploadStage.fp = true)
    (hname : info.uploadStage.originalName = sanitizeFilename first.filename)
    (hnamed : StageNamed info.uploadStage)
    (hcontent : ∀ file, fs info.uploadStage.stagingPath.str = some file →
      file.content ++ item.data = (storedItems (items ++ [item])).flatMap PostItem.data)
    (hok : (writeStage fs info now item).2.responseStatus < 400) :
    Received (items ++ [item]) (writeStage fs info now item).1 (writeStage fs info now item).2 := by
  obtain ⟨hsame, horiginal, hpath, hwrites⟩ := writeStage_writes hfp hok
  refine ⟨fun hnone => absurd (hitems.symm.trans hnone) (by simp), fun first' rest' hstored => ?_⟩
  cases hitems.symm.trans hstored
  refine ⟨hsame.trans hprogress, horiginal.trans hname, ?_, fun file hfile => ?_⟩
  · unfold StageNamed at hnamed ⊢
    rwa [horiginal, hpath]
  · rw [hpath] at hfile
    obtain ⟨old, hold, hfile⟩ := hwrites file hfile
    rw [hfile, hcontent old hold]

theorem iteratePost_received (hnow : 0 ≤ now ∧ now ≤ timeMax) (hreceiving : info.Receiving)
    (h : Received items fs info)
    (hok : (iteratePost fs id info now item).2.responseStatus < 400) :
    Received (items ++ [item]) (iteratePost fs id info now item).1
      (iteratePost fs id info now item).2 := by
  have hitems := storedItems_concat items item
  unfold iteratePost at hok ⊢
  by_cases hstatus : 400 ≤ info.responseStatus
  · rw [if_pos hstatus] at hok
    exact absurd hok (Nat.not_lt.mpr hstatus)
  rw [if_neg hstatus] at hok ⊢
  by_cases hkey : item.key = .lit "file"
  · rw [if_neg (by simpa using hkey)] at hitems
    rw [if_pos hkey] at hok ⊢
    by_cases hnone : storedItems items = []
    · rw [if_pos hnone] at hitems
      have hclosed : info.uploadStage.Closed := by
        rcases hreceiving with ⟨hclosed, -⟩ | ⟨-, hprogress⟩
        · exact hclosed
        · rw [h.closed hnone] at hprogress
          contradiction
      by_cases hname : item.filename = none
      · -- No name, no stage: nothing is opened and nothing is written.
        have hopen : openStage fs id info now item = (fs, info, true) := by
          simp [openStage, hname]
        have hwrite : writeStage fs info now item = (fs, info) := by
          simp [writeStage, hclosed.1, hclosed.2.1]
        rw [hopen]
        simp only [hwrite]
        rw [if_pos hname] at hitems
        exact h.skip (hitems.trans hnone.symm) rfl rfl
      · rw [if_neg hname] at hitems
        have hopens := @openStage_opens fs id info now item hnow hname hclosed
        cases hopen : openStage fs id info now item with
        | mk fs' result =>
            obtain ⟨info', opened⟩ := result
            rw [hopen] at hopens
            simp only [hopen] at hok ⊢
            cases opened with
            | false =>
                have hfailed := @openStage_failed fs id info now item (by rw [hopen])
                rw [hopen] at hfailed
                exact absurd hok (Nat.not_lt.mpr hfailed)
            | true =>
                obtain ⟨hprogress, hfp, hstage, hnamed, hempty⟩ := hopens rfl
                refine writeStage_received hitems hprogress hfp hstage hnamed ?_ hok
                intro file hfile
                rw [hitems, hempty file hfile]
                simp
    · rw [if_neg hnone] at hitems
      obtain ⟨first, rest, hstored⟩ := List.exists_cons_of_ne_nil hnone
      obtain ⟨hprogress, hstage, hnamed, hcontent⟩ := h.open_ first rest hstored
      have hfp : info.uploadStage.fp = true := by
        rcases hreceiving with ⟨-, hclosed⟩ | ⟨hopen, -⟩
        · rw [hprogress] at hclosed
          contradiction
        · exact hopen.1
      have hopen : openStage fs id info now item = (fs, info, true) := by
        simp [openStage, hfp]
      rw [hopen] at hok ⊢
      refine writeStage_received (hitems.trans (by rw [hstored]; rfl)) hprogress hfp hstage hnamed
        ?_ hok
      intro file hfile
      rw [hitems, hcontent file hfile]
      simp
  · rw [if_pos hkey] at hitems
    rw [if_neg hkey]
    obtain ⟨hstage, hprogress, -⟩ := copyField_frame info item
    exact h.skip hitems hstage hprogress

theorem parseFields_received (hnow : 0 ≤ now ∧ now ≤ timeMax) (hreceiving : info.Receiving)
    (h : Received items fs info) (more : List PostItem)
    (hok : (parseFields fs id info now more).2.responseStatus < 400) :
    Received (items ++ more) (parseFields fs id info now more).1
      (parseFields fs id info now more).2 := by
  induction more generalizing items fs info with
  | nil =>
      rw [List.append_nil]
      exact h
  | cons item more ih =>
      have hparsed := @iteratePost_parsed id fs info now hreceiving item
      have hfirst : (iteratePost fs id info now item).2.responseStatus < 400 := by
        by_contra hfailed
        rw [parseFields_cons, parseFields_refused (Nat.le_of_not_lt hfailed)] at hok
        exact hfailed hok
      have hlater := ih hparsed.receiving (iteratePost_received hnow hreceiving h hfirst) hok
      rwa [List.append_assoc, List.singleton_append] at hlater

theorem postProcess_received (hnow : 0 ≤ now ∧ now ≤ timeMax) (hreceiving : info.Receiving)
    (hpost : info.postprocessor = true) (h : Received items fs info) (route : Route)
    (more : List PostItem) (processed : Bool)
    (hok : (postProcess fs id info route now more processed).2.responseStatus < 400) :
    Received (items ++ more) (postProcess fs id info route now more processed).1
      (postProcess fs id info route now more processed).2 := by
  have hparse := postProcess_accepted hpost hok
  rw [hparse] at hok ⊢
  exact parseFields_received hnow hreceiving h more hok

end parsing

end LocalDrop
