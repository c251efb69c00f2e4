import Mathlib.Data.List.Basic

namespace ImpossibleVoice.Artifacts

inductive Platform where
  | linux
  | windows
deriving DecidableEq

abbrev OsString := List UInt8

def ascii (s : String) : OsString := s.toList.map fun c => c.val.toUInt8

def slash : UInt8 := 47

def backslash : UInt8 := 92

def dot : OsString := [46]

def dotDot : OsString := [46, 46]

inductive Component where
  | pathPrefix (text : OsString)
  | rootDir
  | curDir
  | parentDir
  | normal (name : OsString)
deriving DecidableEq

def Component.isNormal : Component → Bool
  | .normal _ => true
  | _ => false

def Platform.isSeparator : Platform → UInt8 → Bool
  | .linux, byte => byte == slash
  | .windows, byte => byte == slash || byte == backslash

def Platform.mainSeparator : Platform → UInt8
  | .linux => slash
  | .windows => backslash

def component (segment : OsString) : Option Component :=
  if segment = [] ∨ segment = dot then none
  else if segment = dotDot then some .parentDir
  else some (.normal segment)

/-- The components of text without a prefix: a leading `.` counts, any other is dropped. -/
def unprefixed (platform : Platform) (text : OsString) : List Component :=
  (if (text.head?.any platform.isSeparator) = true then [.rootDir]
    else if (text.splitOnP platform.isSeparator).head? = some dot then [.curDir] else []) ++
    (text.splitOnP platform.isSeparator).filterMap component

/-- Behind `\\?\` only backslashes separate, and every `.` counts. -/
def verbatimComponent (segment : OsString) : Option Component :=
  if segment = [] then none
  else if segment = dot then some .curDir
  else if segment = dotDot then some .parentDir
  else some (.normal segment)

structure PathPrefix where
  length : Nat
  verbatim : Bool
  implicitRoot : Bool

def isDriveLetter (byte : UInt8) : Bool := (65 ≤ byte && byte ≤ 90) || (97 ≤ byte && byte ≤ 122)

/-- Whether text opens with a drive such as `C:`. -/
def opensWithDrive : OsString → Bool
  | letter :: 58 :: _ => isDriveLetter letter
  | _ => false

def nextComponent (isSeparator : UInt8 → Bool) (text : OsString) : OsString × OsString :=
  (text.takeWhile (!isSeparator ·), (text.dropWhile (!isSeparator ·)).tail)

def shareLength (share : OsString) : Nat := if share = [] then 0 else 1 + share.length

def verbatimPrefix (text : OsString) : PathPrefix :=
  if (text.take 4).map (fun byte => if byte = slash then backslash else byte) = ascii "UNC\\" then
    let server := nextComponent (· == backslash) (text.drop 4)
    let share := (nextComponent (· == backslash) server.2).1
    ⟨8 + server.1.length + shareLength share, true, true⟩
  else if opensWithDrive text = true ∧
    ((text.drop 2).head?.all Platform.windows.isSeparator) = true then ⟨6, true, true⟩
  else ⟨4 + (nextComponent (· == backslash) text).1.length, true, true⟩

def networkPrefix (text : OsString) : Option PathPrefix :=
  if (text.head? = some 46 && (text.drop 1).head?.any Platform.windows.isSeparator) = true then
    some ⟨4 + (nextComponent Platform.windows.isSeparator (text.drop 2)).1.length, false, true⟩
  else
    let server := nextComponent Platform.windows.isSeparator text
    let share := (nextComponent Platform.windows.isSeparator server.2).1
    if server.1 ≠ [] ∧ share ≠ [] then some ⟨2 + server.1.length + shareLength share, false, true⟩
      else none

def pathPrefixOf (text : OsString) : Option PathPrefix :=
  match text with
  | first :: second :: rest =>
      if (Platform.windows.isSeparator first && Platform.windows.isSeparator second) = true then
        if text.take 4 = [backslash, backslash, 63, backslash] then
          some (verbatimPrefix (rest.drop 2))
        else networkPrefix rest
      else if opensWithDrive text = true then some ⟨2, false, false⟩
      else none
  | _ => none

def Platform.components : Platform → OsString → List Component
  | .linux, text => unprefixed .linux text
  | .windows, text =>
      match pathPrefixOf text with
      | none => unprefixed .windows text
      | some found =>
          let rest := text.drop found.length
          .pathPrefix (text.take found.length) ::
            ((if (rest.head?.any Platform.windows.isSeparator ||
                (found.implicitRoot && !found.verbatim)) = true then [.rootDir]
              else []) ++
              if found.verbatim then (rest.splitOnP (· == backslash)).filterMap verbatimComponent
              else (rest.splitOnP Platform.windows.isSeparator).filterMap component)

def hasPrefix : List Component → Bool
  | .pathPrefix _ :: _ => true
  | _ => false

def hasRoot : List Component → Bool
  | .rootDir :: _ | .pathPrefix _ :: .rootDir :: _ => true
  | _ => false

def Platform.isAbsolute : Platform → List Component → Bool
  | .linux, path => hasRoot path
  | .windows, path => hasRoot path && hasPrefix path

/-- `PathBuf::push`, on the components of both. -/
def Platform.pushPath (platform : Platform) (buffer path : List Component) : List Component :=
  if (platform.isAbsolute path || hasPrefix path) = true then path
  else if hasRoot path = true then buffer.takeWhile (fun c => hasPrefix [c]) ++ path
  else buffer ++ path

def Platform.push (platform : Platform) (buffer : List Component) (value : OsString) :
    List Component :=
  platform.pushPath buffer (platform.components value)

def Component.text : Component → OsString
  | .pathPrefix text | .normal text => text
  | .rootDir => []
  | .curDir => dot
  | .parentDir => dotDot

def Platform.render (platform : Platform) : List Component → OsString
  | .pathPrefix text :: rest =>
      text ++ [platform.mainSeparator].intercalate (rest.map Component.text)
  | path => [platform.mainSeparator].intercalate (path.map Component.text)

/-- A name that is one ordinary component by itself, wherever it stands. -/
structure PlainName (platform : Platform) (name : OsString) : Prop where
  ne_nil : name ≠ []
  ne_dot : name ≠ dot
  ne_dotDot : name ≠ dotDot
  unseparated : ∀ byte ∈ name, platform.isSeparator byte = false

instance (platform : Platform) (name : OsString) : Decidable (PlainName platform name) :=
  decidable_of_iff
    (name ≠ [] ∧ name ≠ dot ∧ name ≠ dotDot ∧
    (name.all fun byte => !platform.isSeparator byte) = true)
    ⟨fun h => ⟨h.1, h.2.1, h.2.2.1, by simpa using h.2.2.2⟩,
      fun h => ⟨h.ne_nil, h.ne_dot, h.ne_dotDot, by simpa using h.unseparated⟩⟩

variable {platform : Platform}

theorem component_eq_normal {segment name : OsString}
    (h : component segment = some (.normal name)) :
    name = segment ∧ segment ≠ [] ∧ segment ≠ dot ∧ segment ≠ dotDot := by
  unfold component at h
  split at h
  · cases h
  · next hempty =>
      split at h
      · cases h
      · next hparent =>
          cases h
          exact ⟨rfl, fun hnil => hempty (Or.inl hnil), fun hdot => hempty (Or.inr hdot), hparent⟩

theorem mem_of_mem_segment {sep : UInt8 → Bool} {text segment : OsString}
    (h : segment ∈ text.splitOnP sep) {b : UInt8} (hb : b ∈ segment) : b ∈ text := by
  induction text generalizing segment with
  | nil =>
      rw [List.splitOnP_nil, List.mem_singleton] at h
      rwa [h] at hb
  | cons first rest ih =>
      rw [List.splitOnP_cons_eq_if_modifyHead] at h
      split at h
      · rcases List.mem_cons.mp h with rfl | hrest
        · cases hb
        · exact List.mem_cons_of_mem _ (ih hrest hb)
      · cases hsplit : rest.splitOnP sep with
        | nil => exact absurd hsplit (List.splitOnP_ne_nil sep rest)
        | cons head tail =>
            rw [hsplit, List.modifyHead_cons] at h
            rcases List.mem_cons.mp h with rfl | htail
            · rcases List.mem_cons.mp hb with rfl | hb
              · exact List.mem_cons_self
              · exact List.mem_cons_of_mem _ (ih (hsplit ▸ List.mem_cons_self) hb)
            · exact List.mem_cons_of_mem _ (ih (hsplit ▸ List.mem_cons_of_mem _ htail) hb)

theorem component_plain {name : OsString} (h : PlainName platform name) :
    component name = some (.normal name) := by
  rw [component, if_neg (not_or.mpr ⟨h.ne_nil, h.ne_dot⟩), if_neg h.ne_dotDot]

theorem unseparated_of_mem_splitOnP {p : UInt8 → Bool} {text segment : OsString}
    (h : segment ∈ text.splitOnP p) : ∀ byte ∈ segment, p byte = false := by
  induction text generalizing segment with
  | nil =>
      rw [List.splitOnP_nil, List.mem_singleton] at h
      rw [h]
      intro byte hbyte
      cases hbyte
  | cons first rest ih =>
      rw [List.splitOnP_cons_eq_if_modifyHead] at h
      split at h
      · rcases List.mem_cons.mp h with rfl | hrest
        · intro byte hbyte
          cases hbyte
        · exact ih hrest
      · next hfirst =>
          cases hsplit : rest.splitOnP p with
          | nil => exact absurd hsplit (List.splitOnP_ne_nil p rest)
          | cons head tail =>
              rw [hsplit, List.modifyHead_cons] at h
              rcases List.mem_cons.mp h with rfl | htail
              · intro byte hbyte
                rcases List.mem_cons.mp hbyte with rfl | hbyte
                · exact Bool.eq_false_iff.mpr hfirst
                · exact ih (hsplit ▸ List.mem_cons_self) byte hbyte
              · exact ih (hsplit ▸ List.mem_cons_of_mem _ htail)

theorem plain_of_mem_unprefixed {name text : OsString}
    (h : .normal name ∈ unprefixed platform text) : PlainName platform name := by
  rw [unprefixed, List.mem_append] at h
  rcases h with hhead | hbody
  · split at hhead
    · simp at hhead
    · split at hhead
      · simp at hhead
      · cases hhead
  · obtain ⟨segment, hsegment, hname⟩ := List.mem_filterMap.mp hbody
    obtain ⟨rfl, hnil, hdot, hdots⟩ := component_eq_normal hname
    exact ⟨hnil, hdot, hdots, unseparated_of_mem_splitOnP hsegment⟩

theorem PlainName.head_unseparated {name : OsString} (h : PlainName platform name) :
    name.head?.any platform.isSeparator = false := by
  cases name with
  | nil => exact absurd rfl h.ne_nil
  | cons first rest => exact h.unseparated first List.mem_cons_self

theorem PlainName.unprefixed {name : OsString} (h : PlainName platform name) :
    unprefixed platform name = [.normal name] := by
  rw [Artifacts.unprefixed, if_neg (by simp [h.head_unseparated]),
    List.splitOnP_eq_singleton h.unseparated, List.head?_cons, if_neg (by simpa using h.ne_dot)]
  simp [component_plain h]

/-- On Windows a name may open with a drive, and is then no name. -/
def Confined (platform : Platform) (name : OsString) : Prop :=
  platform = .linux ∨ opensWithDrive name = false

instance (platform : Platform) (name : OsString) : Decidable (Confined platform name) :=
  inferInstanceAs (Decidable (_ ∨ _))

theorem PlainName.components {name : OsString} (h : PlainName platform name)
    (hc : Confined platform name) : platform.components name = [.normal name] := by
  cases platform with
  | linux => exact h.unprefixed
  | windows =>
      have hdrive : opensWithDrive name = false := hc.resolve_left (by decide)
      have hnone : pathPrefixOf name = none := by
        unfold pathPrefixOf
        split
        · next first second rest =>
            rw [if_neg (by simp [h.unseparated first List.mem_cons_self]),
              if_neg (by simp [hdrive])]
        · rfl
      rw [Platform.components]
      simp only [hnone]
      exact h.unprefixed

theorem PlainName.push {name : OsString} (h : PlainName platform name) (hc : Confined platform name)
    (buffer : List Component) : platform.push buffer name = buffer ++ [.normal name] := by
  rw [Platform.push, h.components hc, Platform.pushPath]
  cases platform <;> rfl

structure Ordinary (platform : Platform) (name : OsString) : Prop where
  plain : PlainName platform name
  confined : Confined platform name

instance (platform : Platform) (name : OsString) : Decidable (Ordinary platform name) :=
  decidable_of_iff (PlainName platform name ∧ Confined platform name)
    ⟨fun h => ⟨h.1, h.2⟩, fun h => ⟨h.plain, h.confined⟩⟩

structure ArtifactError where
  message : String
deriving DecidableEq

def pushComponents (platform : Platform) (relative : List Component) :
    List Component → Except ArtifactError (List Component)
  | [] => .ok relative
  | .normal value :: components => pushComponents platform (platform.push relative value) components
  | _ :: _ => .error ⟨"artifact archive path is invalid"⟩

def stripArchiveRoot (platform : Platform) (path root : OsString) :
    Except ArtifactError (List Component) :=
  match platform.components path with
  | .normal value :: components =>
      if value = root then pushComponents platform [] components
        else .error ⟨"artifact archive root is invalid"⟩
  | _ => .error ⟨"artifact archive root is invalid"⟩

def safeRelativePath (platform : Platform) (path : OsString) : Except ArtifactError Unit :=
  if path = [] ∨ platform.isAbsolute (platform.components path) = true ∨
      (platform.components path).any (!·.isNormal) = true then
    .error ⟨"artifact relative path is invalid"⟩
  else .ok ()

theorem components_of_head_normal {path value : OsString} {rest : List Component}
    (h : platform.components path = .normal value :: rest) :
    platform.components path = unprefixed platform path := by
  cases platform with
  | linux => rfl
  | windows =>
      rw [Platform.components] at h ⊢
      cases hfound : pathPrefixOf path with
      | none => rfl
      | some found => simp [hfound] at h

theorem pushComponents_ok {relative result components : List Component}
    (h : pushComponents platform relative components = .ok result) :
    ∃ names : List OsString, components = names.map .normal ∧
      ((∀ name ∈ names, PlainName platform name) → (∀ name ∈ names, Confined platform name) →
        result = relative ++ names.map .normal) := by
  induction components generalizing relative with
  | nil =>
      cases h
      exact ⟨[], rfl, fun _ _ => (List.append_nil _).symm⟩
  | cons component components ih =>
      cases component with
      | normal value =>
          rw [pushComponents] at h
          obtain ⟨names, rfl, hresult⟩ := ih h
          refine ⟨value :: names, rfl, fun hplain hconfined => ?_⟩
          rw [hresult (fun n hn => hplain n (List.mem_cons_of_mem _ hn))
            (fun n hn => hconfined n (List.mem_cons_of_mem _ hn)),
            (hplain value List.mem_cons_self).push (hconfined value List.mem_cons_self),
              List.map_cons, List.append_assoc]
          rfl
      | pathPrefix | rootDir | curDir | parentDir => cases h

/-- What is left of an accepted entry path: ordinary names below the archive's root, which stay
ordinary when pushed one by one unless one of them opens with a drive. -/
theorem stripArchiveRoot_ok {path root : OsString} {relative : List Component}
    (h : stripArchiveRoot platform path root = .ok relative) :
    ∃ names : List OsString, platform.components path = .normal root :: names.map .normal ∧
      (∀ name ∈ names, PlainName platform name) ∧
      ((∀ name ∈ names, Confined platform name) → relative = names.map .normal) := by
  unfold stripArchiveRoot at h
  split at h
  · next value components hcomponents =>
      split at h
      · next hroot =>
          obtain ⟨names, rfl, hresult⟩ := pushComponents_ok h
          have hplain : ∀ name ∈ names, PlainName platform name := by
            intro name hname
            have hmem : .normal name ∈ unprefixed platform path := by
              rw [← components_of_head_normal hcomponents, hcomponents]
              exact List.mem_cons_of_mem _ (List.mem_map_of_mem hname)
            exact plain_of_mem_unprefixed hmem
          exact ⟨names, hroot ▸ hcomponents, hplain, fun hconfined => hresult hplain hconfined⟩
      · cases h
  · cases h

theorem mem_text_of_mem_components {text name : OsString}
    (h : .normal name ∈ Platform.linux.components text) {b : UInt8} (hb : b ∈ name) : b ∈ text := by
  rw [Platform.components, unprefixed, List.mem_append] at h
  rcases h with hhead | hbody
  · split at hhead
    · simp at hhead
    · split at hhead
      · simp at hhead
      · cases hhead
  · obtain ⟨segment, hsegment, hname⟩ := List.mem_filterMap.mp hbody
    obtain ⟨rfl, _⟩ := component_eq_normal hname
    exact mem_of_mem_segment hsegment hb

theorem render_normal (names : List OsString) :
    platform.render (names.map .normal) = [platform.mainSeparator].intercalate names := by
  cases names with
  | nil => cases platform <;> rfl
  | cons name names => simp [Platform.render, Component.text, Function.comp_def]

theorem isSeparator_main : platform.isSeparator platform.mainSeparator = true := by
  cases platform <;> decide

variable {sep : UInt8} {names : List OsString}

theorem splitOnP_joined (hsep : platform.isSeparator sep = true) (hne : names ≠ [])
    (hplain : ∀ name ∈ names, PlainName platform name) :
    ([sep].intercalate names).splitOnP platform.isSeparator = names := by
  induction names with
  | nil => exact absurd rfl hne
  | cons name names ih =>
      have hname := (hplain name List.mem_cons_self).unseparated
      cases names with
      | nil =>
          rw [List.intercalate_singleton]
          exact List.splitOnP_eq_singleton hname
      | cons next names =>
          rw [List.intercalate_cons_cons, List.append_assoc, List.singleton_append,
            List.splitOnP_append_cons_of_forall_mem hname _ hsep,
            ih (List.cons_ne_nil _ _) fun n hn => hplain n (List.mem_cons_of_mem _ hn)]

theorem joined_cons (sep : UInt8) (name : OsString) (names : List OsString) :
    ∃ rest, [sep].intercalate (name :: names) = name ++ rest ∧
    (rest = [] ∨ ∃ tail, rest = sep :: tail) := by
  cases names with
  | nil => exact ⟨[], by rw [List.intercalate_singleton, List.append_nil], Or.inl rfl⟩
  | cons next names =>
      refine ⟨_, ?_, Or.inr ⟨[sep].intercalate (next :: names), rfl⟩⟩
      rw [List.intercalate_cons_cons, List.append_assoc, List.singleton_append]

theorem pathPrefixOf_joined (hsep : Platform.windows.isSeparator sep = true) (hne : names ≠ [])
    (h : ∀ name ∈ names, Ordinary .windows name) :
    pathPrefixOf ([sep].intercalate names) = none := by
  cases names with
  | nil => exact absurd rfl hne
  | cons name names =>
      obtain ⟨hplain, hconfined⟩ := h name List.mem_cons_self
      have hdrive : opensWithDrive name = false := hconfined.resolve_left (by decide)
      obtain ⟨rest, hjoined, hrest⟩ := joined_cons sep name names
      rw [hjoined]
      match name, hplain.ne_nil with
      | [byte], _ =>
          have hbyte : Platform.windows.isSeparator byte = false :=
            hplain.unseparated byte List.mem_cons_self
          obtain rfl | ⟨tail, rfl⟩ := hrest
          · rfl
          · have hcolon : sep ≠ 58 := by
              rintro rfl
              exact absurd hsep (by decide)
            simp [pathPrefixOf, hbyte, opensWithDrive, hcolon]
      | first :: second :: tail, _ =>
          have hfirst : Platform.windows.isSeparator first = false :=
            hplain.unseparated first List.mem_cons_self
          have hopens : opensWithDrive (first :: second :: tail ++ rest) =
              opensWithDrive (first :: second :: tail) := by
            by_cases hsecond : second = 58
            · subst hsecond
              rfl
            · simp [opensWithDrive, hsecond]
          rw [List.cons_append, List.cons_append, pathPrefixOf, hfirst]
          simp only [Bool.false_and, Bool.false_eq_true, if_false]
          rw [show first :: second :: (tail ++ rest) = first :: second :: tail ++ rest from rfl,
            hopens, hdrive]
          rfl

theorem components_joined (hsep : platform.isSeparator sep = true) (hne : names ≠ [])
    (h : ∀ name ∈ names, Ordinary platform name) :
    platform.components ([sep].intercalate names) = names.map .normal := by
  have hnormal : names.filterMap component = names.map .normal := by
    rw [← List.filterMap_eq_map]
    exact List.filterMap_congr fun name hname => component_plain (h name hname).plain
  have hunprefixed : unprefixed platform ([sep].intercalate names) = names.map .normal := by
    rw [unprefixed, splitOnP_joined hsep hne fun name hname => (h name hname).plain, hnormal]
    cases names with
    | nil => exact absurd rfl hne
    | cons name names =>
        have hname := (h name List.mem_cons_self).plain
        obtain ⟨rest, hjoined, -⟩ := joined_cons sep name names
        have hhead : (name ++ rest).head?.any platform.isSeparator = false := by
          have hfirst := hname.head_unseparated
          cases name with
          | nil => exact absurd rfl hname.ne_nil
          | cons first tail => exact hfirst
        rw [hjoined, hhead, if_neg Bool.false_ne_true, List.head?_cons,
          if_neg (by simpa using hname.ne_dot), List.nil_append]
  cases platform with
  | linux => exact hunprefixed
  | windows =>
      rw [Platform.components]
      simp only [pathPrefixOf_joined hsep hne h]
      exact hunprefixed

theorem components_render (hne : names ≠ []) (h : ∀ name ∈ names, Ordinary platform name) :
    platform.components (platform.render (names.map .normal)) = names.map .normal := by
  rw [render_normal]
  exact components_joined isSeparator_main hne h

end ImpossibleVoice.Artifacts
