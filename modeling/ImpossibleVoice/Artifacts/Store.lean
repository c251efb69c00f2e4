import ImpossibleVoice.Artifacts.Setup

namespace ImpossibleVoice.Artifacts

open Lib

variable {platform : Platform} {root p q rest : List Component} {x y x' y' name : OsString}
  {env : Environment} {artifact other : ArtifactSpec} {n k : Nat}

theorem digit_bounds {c : Char} (h : c ∈ Nat.toDigits 10 n) :
    48 ≤ c.toNat ∧ c.toNat ≤ 57 ∧ c.val.toUInt8.toNat = c.toNat := by
  have hdigit := Nat.isDigit_of_mem_toDigits (by decide) (by decide) h
  simp only [Char.isDigit, Bool.and_eq_true, decide_eq_true_eq, ge_iff_le,
    UInt32.le_iff_toNat_le] at hdigit
  have hlow : 48 ≤ c.toNat := hdigit.1
  have hhigh : c.toNat ≤ 57 := hdigit.2
  refine ⟨hlow, hhigh, ?_⟩
  rw [UInt32.toNat_toUInt8]
  exact Nat.mod_eq_of_lt (show c.toNat < 2 ^ 8 by omega)

theorem mem_decimal {b : UInt8} (h : b ∈ decimal n) : 48 ≤ b.toNat ∧ b.toNat ≤ 57 := by
  obtain ⟨c, hc, rfl⟩ := List.mem_map.mp h
  obtain ⟨hlow, hhigh, hbyte⟩ := digit_bounds hc
  rw [hbyte]
  exact ⟨hlow, hhigh⟩

theorem decimal_injective : Function.Injective decimal := by
  have hback (n : Nat) : (decimal n).map (fun b => Char.ofNat b.toNat) = Nat.toDigits 10 n := by
    rw [decimal, List.map_map]
    conv_rhs => rw [← List.map_id (Nat.toDigits 10 n)]
    refine List.map_congr_left fun c hc => ?_
    rw [Function.comp_apply, (digit_bounds hc).2.2, Char.ofNat_toNat]
    rfl
  intro n k h
  rw [← Nat.ofDigitChars_ten_toDigits (n := n), ← hback, h, hback, Nat.ofDigitChars_ten_toDigits]

theorem dash_notMem_decimal : dash ∉ decimal n := fun h => absurd (mem_decimal h).1 (by decide)

/-- What follows the last dash is found again. -/
theorem append_dash_inj {front front' back back' : OsString} (hback : dash ∉ back)
    (hback' : dash ∉ back') (h : front ++ dash :: back = front' ++ dash :: back') :
    front = front' ∧ back = back' := by
  rcases List.append_eq_append_iff.mp h with ⟨middle, hfront, hmiddle⟩ | ⟨middle, hfront, hmiddle⟩
  · cases middle with
    | nil => exact ⟨by simpa using hfront.symm, (List.cons.inj hmiddle).2⟩
    | cons b middle =>
        obtain ⟨-, hrest⟩ := List.cons.inj hmiddle
        exact absurd (hrest ▸ List.mem_append_right _ List.mem_cons_self) hback
  · cases middle with
    | nil => exact ⟨by simpa using hfront, (List.cons.inj hmiddle).2.symm⟩
    | cons b middle =>
        obtain ⟨-, hrest⟩ := List.cons.inj hmiddle
        exact absurd (hrest ▸ List.mem_append_right _ List.mem_cons_self) hback'

def isStoreByte (byte : UInt8) : Bool := byte != slash && byte != backslash && byte != 58

theorem isStoreByte_of {test : UInt8 → Bool} {b : UInt8}
    (hrefused : test slash = false ∧ test backslash = false ∧ test 58 = false) (h : test b = true) :
    isStoreByte b = true := by
  have hne {c : UInt8} (hc : test c = false) : b ≠ c := by
    rintro rfl
    rw [h] at hc
    cases hc
  simp [isStoreByte, hne hrefused.1, hne hrefused.2.1, hne hrefused.2.2]

theorem ordinary_of_bytes (hne : name ≠ [] ∧ name ≠ dot ∧ name ≠ dotDot)
    (hall : name.all isStoreByte = true) : Ordinary platform name := by
  have hbyte : ∀ b ∈ name, b ≠ slash ∧ b ≠ backslash ∧ b ≠ 58 := by
    intro b hb
    simpa [isStoreByte, and_assoc] using List.all_eq_true.mp hall b hb
  refine ⟨⟨hne.1, hne.2.1, hne.2.2, fun b hb => ?_⟩, Or.inr ?_⟩
  · obtain ⟨hslash, hback, -⟩ := hbyte b hb
    cases platform <;> simp [Platform.isSeparator, hslash, hback]
  · unfold opensWithDrive
    split
    · exact absurd rfl (hbyte 58 (by simp)).2.2
    · rfl

theorem ordinary_of_dash (hdash : dash ∈ name) (hall : name.all isStoreByte = true) :
    Ordinary platform name := by
  refine ordinary_of_bytes ⟨?_, ?_, ?_⟩ hall
  · rintro rfl
    cases hdash
  · rintro rfl
    exact absurd hdash (by decide)
  · rintro rfl
    exact absurd hdash (by decide)

theorem join_ordinary (h : Ordinary platform name) (path : List Component) :
    join platform path name = path ++ [.normal name] :=
  h.plain.push h.confined path

theorem all_decimal : (decimal n).all isStoreByte = true := by
  rw [List.all_eq_true]
  intro b hb
  obtain ⟨hlow, hhigh⟩ := mem_decimal hb
  have hne {c : UInt8} (hc : c.toNat < 48 ∨ 57 < c.toNat) : b ≠ c := by
    rintro rfl
    omega
  simp [isStoreByte, hne (c := slash) (by decide), hne (c := backslash) (by decide),
    hne (c := 58) (by decide)]

structure Curated (artifact : ArtifactSpec) : Prop where
  id : artifact.id.bytes.all isIdByte = true
  length : artifact.sha256.bytes.length = 64
  hex : artifact.sha256.bytes.all isAsciiHexDigit = true

theorem curated_of_valid (h : validateArtifact platform artifact = .ok ()) : Curated artifact := by
  rw [validateArtifact] at h
  split at h
  case isTrue => cases h
  case isFalse hvalid =>
    simp only [not_or, not_not, Bool.not_eq_false] at hvalid
    exact ⟨hvalid.2.1, hvalid.2.2.2.2.2.1, hvalid.2.2.2.2.2.2.1⟩

theorem validateArtifacts_ok {artifacts : List ArtifactSpec} {ids : List Text}
    (h : validateArtifacts platform artifacts ids = .ok ()) :
    (∀ artifact ∈ artifacts, Curated artifact ∧ artifact.id ∉ ids) ∧
    (artifacts.map ArtifactSpec.id).Nodup := by
  induction artifacts generalizing ids with
  | nil => exact ⟨fun _ h => absurd h List.not_mem_nil, List.nodup_nil⟩
  | cons artifact artifacts ih =>
      rw [validateArtifacts] at h
      cases hvalid : validateArtifact platform artifact with
      | error error =>
          rw [hvalid] at h
          cases h
      | ok _ =>
          rw [hvalid] at h
          simp only [bind, Except.bind] at h
          split at h
          case isTrue => cases h
          case isFalse hnew =>
            obtain ⟨hall, hnodup⟩ := ih h
            refine ⟨fun other hother => ?_, ?_⟩
            · rcases List.mem_cons.mp hother with rfl | hother
              · exact ⟨curated_of_valid hvalid, hnew⟩
              · exact ⟨(hall other hother).1,
                  fun hin => (hall other hother).2 (List.mem_cons_of_mem _ hin)⟩
            · rw [List.map_cons, List.nodup_cons]
              refine ⟨fun hin => ?_, hnodup⟩
              obtain ⟨other, hother, hid⟩ := List.mem_map.mp hin
              exact (hall other hother).2 (hid ▸ List.mem_cons_self)

def kinds : List String := ["runtime", "stt-model", "tts-model"]

/-- The artifacts of a platform: one of each kind, and no two with one identifier. -/
structure Selection (selected : List ArtifactSpec) : Prop where
  curated : ∀ artifact ∈ selected, Curated artifact
  nodup : (selected.map ArtifactSpec.id).Nodup
  covers : ∀ artifact ∈ selected, ∃ kind ∈ kinds, selected.find? (·.kind == kind) = some artifact
  complete : ∀ kind ∈ kinds, ∃ artifact ∈ selected, selected.find? (·.kind == kind) = some artifact

theorem kind_of_valid (h : validateArtifact platform artifact = .ok ()) :
    artifact.kind ∈ kinds := by
  rw [validateArtifact] at h
  split at h
  case isTrue => cases h
  case isFalse hvalid =>
    simp only [not_or, not_not] at hvalid
    exact hvalid.2.2.1

theorem valid_of_mem {artifacts : List ArtifactSpec} {ids : List Text}
    (h : validateArtifacts platform artifacts ids = .ok ()) (hmem : artifact ∈ artifacts) :
    validateArtifact platform artifact = .ok () := by
  induction artifacts generalizing ids with
  | nil => exact absurd hmem List.not_mem_nil
  | cons first artifacts ih =>
      rw [validateArtifacts] at h
      cases hvalid : validateArtifact platform first with
      | error error =>
          rw [hvalid] at h
          cases h
      | ok _ =>
          rw [hvalid] at h
          simp only [bind, Except.bind] at h
          split at h
          case isTrue => cases h
          case isFalse =>
            rcases List.mem_cons.mp hmem with rfl | hmem
            · exact hvalid
            · exact ih h hmem

theorem find_of_count {selected : List ArtifactSpec} {kind : String}
    (hcount : selected.countP (fun artifact => artifact.kind == kind) = 1) :
    ∃ artifact ∈ selected, selected.find? (·.kind == kind) = some artifact ∧
      ∀ other ∈ selected, other.kind = kind → other = artifact := by
  rw [List.countP_eq_length_filter, List.length_eq_one_iff] at hcount
  obtain ⟨only, honly⟩ := hcount
  have hall : ∀ other ∈ selected, other.kind = kind → other = only := by
    intro other hother hkind
    have hmem : other ∈ selected.filter fun artifact => artifact.kind == kind :=
      List.mem_filter.mpr ⟨hother, beq_iff_eq.mpr hkind⟩
    rwa [honly, List.mem_singleton] at hmem
  have hmem : only ∈ selected.filter fun artifact => artifact.kind == kind :=
    honly ▸ List.mem_cons_self
  obtain ⟨honly, hkind⟩ := List.mem_filter.mp hmem
  refine ⟨only, honly, ?_, hall⟩
  cases hfind : selected.find? fun artifact => artifact.kind == kind with
  | none => exact absurd hkind (by simpa using List.find?_eq_none.mp hfind only honly)
  | some found =>
      rw [hall found (List.mem_of_find?_eq_some hfind) (beq_iff_eq.mp (List.find?_some hfind :))]

theorem selection_of_ok {manifest parsed : CuratedManifest} {selected : List ArtifactSpec}
    (hparse : parseManifest platform manifest = .ok parsed)
    (hselect : selectArtifacts parsed platform = .ok selected) : Selection selected := by
  rw [parseManifest] at hparse
  split at hparse
  case isTrue => cases hparse
  case isFalse =>
    cases hvalid : validateArtifacts platform manifest.artifacts [] with
    | error error =>
        rw [hvalid] at hparse
        cases hparse
    | ok _ =>
        rw [hvalid] at hparse
        cases hparse
        obtain ⟨hcurated, hnodup⟩ := validateArtifacts_ok hvalid
        rw [selectArtifacts] at hselect
        split at hselect
        case isTrue => cases hselect
        case isFalse hcounts =>
          cases hselect
          simp only [not_or, not_not] at hcounts
          obtain ⟨-, hruntime, hstt, htts⟩ := hcounts
          have hcount : ∀ kind ∈ kinds, (manifest.artifacts.filter fun artifact =>
              artifact.platforms.any (· == platform.text)).countP
                (fun artifact => artifact.kind == kind) = 1 := by
            intro kind hkind
            simp only [kinds, List.mem_cons, List.not_mem_nil, or_false] at hkind
            rcases hkind with rfl | rfl | rfl
            · exact hruntime
            · exact hstt
            · exact htts
          refine ⟨fun artifact hmem => (hcurated artifact (List.mem_filter.mp hmem).1).1,
            hnodup.sublist (List.filter_sublist.map _), fun artifact hmem => ?_,
              fun kind hkind => ?_⟩
          · have hkind := kind_of_valid (valid_of_mem hvalid (List.mem_filter.mp hmem).1)
            obtain ⟨found, -, hfind, hall⟩ := find_of_count (hcount _ hkind)
            exact ⟨_, hkind, (hall artifact hmem rfl) ▸ hfind⟩
          · obtain ⟨found, hfound, hfind, -⟩ := find_of_count (hcount kind hkind)
            exact ⟨found, hfound, hfind⟩

def spot (root : List Component) (x y : OsString) : List Component := root ++ [.normal x, .normal y]

theorem spot_prefix_iff : spot root x y <+: spot root x' y' ++ rest ↔ x = x' ∧ y = y' := by
  rw [spot, spot, List.append_assoc, List.prefix_append_right_inj]
  simp

theorem spot_prefix_spot_iff : spot root x y <+: spot root x' y' ↔ x = x' ∧ y = y' := by
  rw [← List.append_nil (spot root x' y')]
  exact spot_prefix_iff

theorem spot_inj (h : spot root x y = spot root x' y') : x = x' ∧ y = y' := by
  apply spot_prefix_spot_iff.mp
  rw [h]

theorem ne_of_spots (h : x ≠ x') : spot root x y ≠ spot root x' y' := fun heq => h (spot_inj heq).1

namespace Curated

theorem all_id (h : Curated artifact) : artifact.id.bytes.all isStoreByte = true := by
  rw [List.all_eq_true]
  exact fun b hb => isStoreByte_of (by decide) (List.all_eq_true.mp h.id b hb)

theorem all_sha256 (h : Curated artifact) : artifact.sha256.bytes.all isStoreByte = true := by
  rw [List.all_eq_true]
  exact fun b hb => isStoreByte_of (by decide) (List.all_eq_true.mp h.hex b hb)

theorem dash_notMem_sha256 (h : Curated artifact) : dash ∉ artifact.sha256.bytes := fun hmem =>
  absurd (List.all_eq_true.mp h.hex dash hmem) (by decide)

end Curated

theorem isStoreByte_dash : isStoreByte dash = true := by decide

theorem ordinary_objectName (h : Curated artifact) : Ordinary platform (objectName artifact) := by
  refine ordinary_of_dash (List.mem_append_right _ List.mem_cons_self) ?_
  have hdigest : (artifact.sha256.bytes.take 16).all isStoreByte = true := by
    rw [List.all_eq_true]
    exact fun b hb => List.all_eq_true.mp h.all_sha256 b (List.mem_of_mem_take hb)
  rw [objectName, List.all_append, List.all_cons, h.all_id, isStoreByte_dash, hdigest]
  rfl

theorem ordinary_archiveName (h : Curated artifact) : Ordinary platform (archiveName artifact) := by
  refine ordinary_of_dash (by simp [archiveName]) ?_
  have hextension : (ascii ".tar.bz2").all isStoreByte = true := by decide
  simp only [archiveName, List.all_append, List.all_cons, h.all_id, h.all_sha256, isStoreByte_dash,
    hextension, Bool.and_self]

theorem ordinary_stagingName (h : Curated artifact) :
    Ordinary platform (stagingName env artifact n) := by
  refine ordinary_of_dash (by simp [stagingName]) ?_
  simp only [stagingName, List.all_append, List.all_cons, h.all_id, all_decimal, isStoreByte_dash,
    Bool.and_self]

def labels : List String := ["object", "archive", "download", "staging"]

theorem ordinary_recoveryName {label : String} (h : label ∈ labels) :
    Ordinary platform (recoveryName env label n) := by
  have hlabel : (ascii label).all isStoreByte = true := by
    simp only [labels, List.mem_cons, List.not_mem_nil, or_false] at h
    rcases h with rfl | rfl | rfl | rfl <;> decide
  refine ordinary_of_dash (by simp [recoveryName]) ?_
  simp only [recoveryName, List.all_append, List.all_cons, hlabel, all_decimal, isStoreByte_dash,
    Bool.and_self]

theorem join_join (hx : Ordinary platform x) (hy : Ordinary platform y) :
    join platform (join platform root x) y = spot root x y := by
  rw [join_ordinary hx, join_ordinary hy, spot, List.append_assoc]
  rfl

def storeNames : List OsString :=
  [ascii "objects", ascii "downloads", ascii "staging", ascii "recovery"]

theorem ordinary_storeName (h : name ∈ storeNames) : Ordinary platform name := by
  simp only [storeNames, List.mem_cons, List.not_mem_nil, or_false] at h
  rcases h with rfl | rfl | rfl | rfl <;> exact ordinary_of_bytes (by decide) (by decide)

theorem objectPath_eq (h : Curated artifact) :
    objectPath platform root artifact = spot root (ascii "objects") (objectName artifact) :=
  join_join (ordinary_storeName (by decide)) (ordinary_objectName h)

theorem archivePath_eq (h : Curated artifact) :
    archivePath platform root artifact = spot root (ascii "downloads") (archiveName artifact) :=
  join_join (ordinary_storeName (by decide)) (ordinary_archiveName h)

theorem stagingPath_eq (h : Curated artifact) :
    stagingPath platform env root artifact n =
      spot root (ascii "staging") (stagingName env artifact n) :=
  join_join (ordinary_storeName (by decide)) (ordinary_stagingName h)

theorem recoveryPath_eq : recoveryPath platform root = root ++ [.normal (ascii "recovery")] :=
  join_ordinary (ordinary_storeName (by decide)) root

theorem join_recoveryName {label : String} (h : label ∈ labels) :
    join platform (recoveryPath platform root) (recoveryName env label n) =
      spot root (ascii "recovery") (recoveryName env label n) :=
  join_join (ordinary_storeName (by decide)) (ordinary_recoveryName h)

def partialName (env : Environment) (artifact : ArtifactSpec) (suffix : Nat) : OsString :=
  artifact.id.bytes ++ dash :: artifact.sha256.bytes ++ ascii ".tar" ++ dot ++
    partialExtension env suffix

theorem fileStem_archiveName :
    fileStem (archiveName artifact) =
      artifact.id.bytes ++ dash :: artifact.sha256.bytes ++ ascii ".tar" := by
  have hends : (ascii ".tar.bz2").reverse = [50, 122, 98] ++ 46 :: (ascii ".tar").reverse := by
    decide
  have hnot : archiveName artifact ≠ dotDot := by
    intro heq
    have hdash : dash ∈ archiveName artifact := by simp [archiveName]
    rw [heq] at hdash
    exact absurd hdash (by decide)
  rw [fileStem, if_neg hnot, archiveName, List.reverse_append, hends]
  simp [dot]

theorem partialPath_eq (h : Curated artifact) :
    partialPath platform env root artifact n =
      spot root (ascii "downloads") (partialName env artifact n) := by
  rw [partialPath, archivePath_eq h, withExtension, spot]
  simp [fileStem_archiveName, partialName, spot]

theorem id_of_objectName (h : Curated artifact) (h' : Curated other)
    (heq : objectName artifact = objectName other) : artifact.id = other.id := by
  refine Text.ext (append_dash_inj ?_ ?_ heq).1
  · exact fun hmem => h.dash_notMem_sha256 (List.mem_of_mem_take hmem)
  · exact fun hmem => h'.dash_notMem_sha256 (List.mem_of_mem_take hmem)

theorem id_of_archiveName (h : Curated artifact) (h' : Curated other)
    (heq : archiveName artifact = archiveName other) : artifact.id = other.id :=
  Text.ext
    (append_dash_inj h.dash_notMem_sha256 h'.dash_notMem_sha256 (List.append_cancel_right heq)).1

/-- No unfinished download has the name of a finished one. -/
theorem partialName_ne_archiveName (h : Curated other) :
    partialName env artifact n ≠ archiveName other := by
  intro heq
  have hextension : dash ∉ ascii ".tar.bz2" := by decide
  rw [partialName, partialExtension, archiveName, ← List.append_assoc, ← List.append_assoc,
    List.append_assoc other.id.bytes, List.cons_append] at heq
  have hback :=
    (append_dash_inj dash_notMem_decimal (by simp [h.dash_notMem_sha256, hextension]) heq).2
  have hdigit : 98 ∈ decimal n := by
    rw [hback]
    exact List.mem_append_right _ (by decide)
  exact absurd (mem_decimal hdigit).2 (by decide)

theorem recoveryName_inj {label label' : String}
    (heq : recoveryName env label n = recoveryName env label' k) : n = k := by
  rw [recoveryName, recoveryName] at heq
  exact decimal_injective (append_dash_inj dash_notMem_decimal dash_notMem_decimal heq).2

end ImpossibleVoice.Artifacts
