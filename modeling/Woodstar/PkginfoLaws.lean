import Woodstar.PkginfoPublication

/-!
# Laws of derived pkginfo

Every step of the derivation touches a few keys, and none that is declared. So the values
of a declared key go through, and those of an owned key depend on the declaration and the
artifact alone.
-/
namespace PkginfoDerivation

open JsonValues
open Primitives (bind_eq_ok)

/-- A step that leaves what is declared and every key but the given ones. -/
structure Touches (keys : List String) (d d' : NativeDefaults) : Prop where
  explicit : d'.explicit = d.explicit
  other : ∀ key, key ∉ keys → d'.values key = d.values key
  declared : ∀ key, d.declared key = true → d'.values key = d.values key

section

variable {d d' d'' : NativeDefaults} {keys keys' : List String} {key kind origin : String} {value : Json}

theorem Touches.refl (d : NativeDefaults) : Touches [] d d := ⟨rfl, fun _ _ => rfl, fun _ _ => rfl⟩

theorem Touches.declared_eq (h : Touches keys d d') (key : String) : d'.declared key = d.declared key := by
  rw [NativeDefaults.declared, NativeDefaults.declared, h.explicit]

theorem Touches.detects_eq (h : Touches keys d d') : d'.detects = d.detects := by
  simp only [NativeDefaults.detects, h.declared_eq]

theorem Touches.trans (h : Touches keys d d') (h' : Touches keys' d' d'') : Touches (keys ++ keys') d d'' where
  explicit := h'.explicit.trans h.explicit
  other key hkey := by
    rw [List.mem_append, not_or] at hkey
    exact (h'.other key hkey.2).trans (h.other key hkey.1)
  declared key hkey := (h'.declared key ((h.declared_eq key).trans hkey)).trans (h.declared key hkey)

theorem Touches.mono (h : Touches keys d d') (hsub : keys ⊆ keys') : Touches keys' d d' :=
  ⟨h.explicit, fun key hkey => h.other key (fun hmem => hkey (hsub hmem)), h.declared⟩

theorem put_of_declared (h : d.declared key = true) : d.put key value origin = d := if_pos h

theorem values_put (h : d.declared key = false) : (d.put key value origin).values key = some value := by
  rw [NativeDefaults.put, if_neg (by simp [h])]
  exact Function.update_self _ _ _

theorem touches_put : Touches [key] d (d.put key value origin) := by
  by_cases h : d.declared key = true
  · rw [put_of_declared h]
    exact (Touches.refl d).mono (List.nil_subset _)
  · rw [NativeDefaults.put, if_neg h]
    constructor
    · rfl
    · intro k hk
      exact Function.update_of_ne (by simpa using hk) _ _
    · intro k hk
      have hne : k ≠ key := by
        rintro rfl
        exact h hk
      exact Function.update_of_ne hne _ _

theorem touches_putIf {p : Prop} [Decidable p] : Touches [key] d (d.putIf p key value origin) := by
  simp only [NativeDefaults.putIf]
  split_ifs
  · exact touches_put
  · exact (Touches.refl d).mono (List.nil_subset _)

theorem touches_installerType {artifact : Artifact} :
    Touches ["installer_type"] d (d.installerType artifact).2 := by
  simp only [NativeDefaults.installerType]
  split_ifs
  · exact (Touches.refl d).mono (List.nil_subset _)
  · exact touches_put
  · exact (Touches.refl d).mono (List.nil_subset _)

theorem touches_packageDefaults {subjects : List Subject} :
    Touches ["receipts", "installed_size", "RestartAction"] d (d.packageDefaults subjects kind) := by
  simp only [NativeDefaults.packageDefaults]
  split_ifs
  · exact (touches_putIf.trans touches_putIf).trans touches_putIf
  · exact (Touches.refl d).mono (List.nil_subset _)

theorem touches_uninstall : Touches ["uninstallable", "uninstall_method"] d (d.uninstall kind) := by
  simp only [NativeDefaults.uninstall]
  split_ifs
  · exact touches_put.trans touches_put
  · exact (Touches.refl d).mono (List.nil_subset _)

theorem touches_describe {request : ReconcileRequest} (h : d.declared "minimum_os_version" = false) :
    Touches ["version", "minimum_os_version"] d (describe request d) := by
  have hversion : Touches ["version"] d (d.putIf (request.artifact.version ≠ "") "version"
      (.string request.artifact.version) "artifact.version") := touches_putIf
  simp only [describe]
  cases request.minimumOS with
  | some minimum => exact hversion.trans touches_put
  | none =>
    refine hversion.trans ⟨rfl, ?_, ?_⟩
    · intro key hkey
      exact Function.update_of_ne (by simpa using hkey) _ _
    · intro key hkey
      rw [hversion.declared_eq] at hkey
      have hne : key ≠ "minimum_os_version" := by
        rintro rfl
        rw [h] at hkey
        cases hkey
      exact Function.update_of_ne hne _ _

theorem values_describe {request : ReconcileRequest} (h : d.declared "minimum_os_version" = false) :
    ((describe request d).values "minimum_os_version").isSome = true := by
  simp only [describe]
  cases request.minimumOS with
  | some minimum =>
    simp only
    rw [values_put (by rw [touches_putIf.declared_eq]; exact h)]
    rfl
  | none => simp

theorem covers_iff {source : List Char} {action : PackageItemToCopy} :
    covers source (LexicalPaths.clean action.sourceItem.toList) = true ↔
      ∃ rest, Inside source action rest := by
  simp only [covers, Bool.or_eq_true, decide_eq_true_eq, List.isPrefixOf_iff_prefix, Inside]
  constructor
  · rintro (heq | ⟨rest, hrest⟩)
    · exact ⟨[], Or.inl ⟨heq, rfl⟩⟩
    · exact ⟨rest, Or.inr (by rw [← hrest, List.append_assoc]; rfl)⟩
  · rintro ⟨rest, ⟨heq, -⟩ | heq⟩
    · exact Or.inl heq
    · exact Or.inr ⟨rest, by rw [heq, List.append_assoc]; rfl⟩

theorem trimPrefix_append (lead text : List Char) : trimPrefix lead (lead ++ text) = text := by
  rw [trimPrefix, GoText.cutPrefix_append]
  rfl

theorem copiedPath_of_inside {source rest : List Char} {action : PackageItemToCopy}
    (h : Inside source action rest) : copiedPath action source = placed action rest := by
  simp only [copiedPath, placed]
  rcases h with ⟨rfl, rfl⟩ | rfl
  · have htrim : trimPrefix (LexicalPaths.clean action.sourceItem.toList)
        (LexicalPaths.clean action.sourceItem.toList) = [] := by
      simpa using trimPrefix_append (LexicalPaths.clean action.sourceItem.toList) []
    rw [htrim]
    rfl
  · rw [trimPrefix_append, show '/' :: rest = ['/'] ++ rest from rfl, trimPrefix_append]

theorem placed_ne_nil (action : PackageItemToCopy) (rest : List Char) : placed action rest ≠ [] := by
  simp only [placed]
  by_cases hitem : action.destinationItem = ""
  · rw [if_pos hitem]
    exact LexicalPaths.join_ne_nil (List.mem_cons_of_mem _ List.mem_cons_self)
      (LexicalPaths.base_ne_nil _)
  · rw [if_neg hitem]
    exact LexicalPaths.join_ne_nil (List.mem_cons_of_mem _ List.mem_cons_self)
      (by simpa using hitem)

/-- With one copy found, no other takes the source along. -/
theorem copyLoop_found {source copied copied' : List Char} {copies : List PackageItemToCopy}
    (hcopied : copied ≠ []) (h : copyLoop source copied copies = .ok copied') :
    copied' = copied ∧ ∀ action ∈ copies, ∀ rest, ¬Inside source action rest := by
  induction copies with
  | nil => exact ⟨(Except.ok.inj h).symm, List.forall_mem_nil _⟩
  | cons action actions ih =>
    rw [copyLoop] at h
    split_ifs at h with hcovers
    obtain ⟨heq, hnone⟩ := ih h
    refine ⟨heq, List.forall_mem_cons.mpr ⟨?_, hnone⟩⟩
    intro rest hinside
    exact hcovers (covers_iff.mpr ⟨rest, hinside⟩)

theorem copyLoop_start {source copied : List Char} {copies : List PackageItemToCopy}
    (h : copyLoop source [] copies = .ok copied) :
    (∃ before action after rest, copies = before ++ action :: after ∧ Inside source action rest ∧
      copied = placed action rest ∧ ∀ other ∈ before ++ after, ∀ rest, ¬Inside source other rest) ∨
    ((∀ action ∈ copies, ∀ rest, ¬Inside source action rest) ∧ copied = []) := by
  induction copies with
  | nil => exact Or.inr ⟨List.forall_mem_nil _, (Except.ok.inj h).symm⟩
  | cons action actions ih =>
    rw [copyLoop] at h
    by_cases hcovers : covers source (LexicalPaths.clean action.sourceItem.toList) = true
    · left
      obtain ⟨rest, hinside⟩ := covers_iff.mp hcovers
      rw [if_pos hcovers, if_pos rfl, copiedPath_of_inside hinside] at h
      obtain ⟨heq, hnone⟩ := copyLoop_found (placed_ne_nil action rest) h
      exact ⟨[], action, actions, rest, rfl, hinside, heq, hnone⟩
    · rw [if_neg hcovers] at h
      have hother : ∀ rest, ¬Inside source action rest :=
        fun rest hinside => hcovers (covers_iff.mpr ⟨rest, hinside⟩)
      rcases ih h with ⟨before, found, after, rest, rfl, hinside, heq, hnone⟩ | ⟨hnone, heq⟩
      · left
        exact ⟨action :: before, found, after, rest, rfl, hinside, heq,
          List.forall_mem_cons.mpr ⟨hother, hnone⟩⟩
      · right
        exact ⟨List.forall_mem_cons.mpr ⟨hother, hnone⟩, heq⟩

theorem copyRule_of_installedPath {source observed path : String} {copies : List PackageItemToCopy}
    (h : installedPath source observed copies = .ok path) : CopyRule copies source observed path := by
  obtain ⟨copied, hloop, hrest⟩ := bind_eq_ok.mp h
  rcases copyLoop_start hloop with ⟨before, action, after, rest, rfl, hinside, rfl, hnone⟩ | ⟨hnone, rfl⟩
  · left
    split_ifs at hrest with hdisagree hcopied
    · obtain rfl := Except.ok.inj hrest
      refine ⟨before, action, after, rest, rfl, hinside, String.toList_ofList, hnone, ?_⟩
      by_contra hobserved
      rw [not_or] at hobserved
      exact hdisagree ⟨hobserved.1, hcopied, hobserved.2⟩
    · exact absurd (placed_ne_nil action rest) hcopied
  · right
    split_ifs at hrest with hdisagree hcopied
    · exact absurd rfl hcopied
    · exact ⟨hnone, (Except.ok.inj hrest).symm⟩

end

section

variable {plugin : Plugin} {declared : AList (fun _ : String => Json)} {explicit explicit' : Fields}
  {copies : List PackageItemToCopy} {entry decoded kept : Json} {request : ReconcileRequest}

theorem mapError_eq_ok {ε δ α : Type} {x : Except ε α} {f : ε → δ} {a : α} :
    x.mapError f = .ok a ↔ x = .ok a := by
  cases x with
  | error e => simp [Except.mapError]
  | ok b => simp [Except.mapError]

/-- The declaration with its numbers as binary64. -/
def decodedFields (declared : AList (fun _ : String => Json)) : Fields :=
  fun key => (declared.lookup key).bind Json.viaAny

theorem unmarshal_cases (h : unmarshal declared = .ok explicit) : explicit = decodedFields declared ∧
    ∀ key value, declared.lookup key = some value → value.viaAny.isSome = true := by
  simp only [unmarshal] at h
  split_ifs at h with hall
  refine ⟨(Except.ok.inj h).symm, ?_⟩
  intro key value hvalue
  exact List.all_eq_true.mp hall ⟨key, value⟩ (AList.mem_lookup_iff.mp hvalue)

theorem keys_fieldsViaAny {fields decoded : List (String × Json)}
    (h : Json.fieldsViaAny fields = some decoded) : decoded.map Prod.fst = fields.map Prod.fst := by
  induction fields generalizing decoded with
  | nil =>
    rw [Json.fieldsViaAny, Option.some.injEq] at h
    rw [← h]
  | cons field fields ih =>
    obtain ⟨v, -, hrest⟩ := Option.bind_eq_some_iff.mp h
    obtain ⟨fs, hfs, rfl⟩ := Option.map_eq_some_iff.mp hrest
    rw [List.map_cons, List.map_cons, ih hfs]

theorem isNative_viaAny (h : entry.viaAny = some decoded) : isNative decoded = isNative entry := by
  cases entry with
  | object fields =>
    obtain ⟨fs, hfs, rfl⟩ := Option.map_eq_some_iff.mp h
    have hany (l : List (String × Json)) :
        l.any (fun field => field.1 == "type") = (l.map Prod.fst).any (fun key => key == "type") := by
      rw [List.any_map]
      rfl
    rw [isNative, isNative, hany, hany, keys_fieldsViaAny hfs]
  | null => rw [← Option.some.inj h]
  | bool value => rw [← Option.some.inj h]
  | string value => rw [← Option.some.inj h]
  | number value =>
    obtain ⟨q, -, rfl⟩ := Option.map_eq_some_iff.mp h
    rfl
  | array items =>
    obtain ⟨is, -, rfl⟩ := Option.map_eq_some_iff.mp h
    rfl

theorem viaAny_eq_string {text : String} (h : entry.viaAny = some (.string text)) : entry = .string text := by
  cases entry with
  | string value => rw [Option.some.inj h]
  | null => cases h
  | bool value => cases h
  | number value =>
    obtain ⟨q, -, heq⟩ := Option.map_eq_some_iff.mp h
    cases heq
  | array items =>
    obtain ⟨is, -, heq⟩ := Option.map_eq_some_iff.mp h
    cases heq
  | object fields =>
    obtain ⟨fs, -, heq⟩ := Option.map_eq_some_iff.mp h
    cases heq

/-- What a decoded entry of the installs list becomes. -/
def Resolves (plugin : Plugin) (copies : List PackageItemToCopy) (decoded kept : Json) : Prop :=
  if isNative decoded = true then kept = decoded
  else ∃ subject app path, plugin.decodeSubject decoded = some subject ∧ subject.kind = "app" ∧
    subject.app = some app ∧ path ≠ "" ∧ CopyRule copies subject.path subject.installedPath path ∧
    applicationItem plugin app path "" = .ok kept

theorem resolves_of_resolveItem {index : Nat} (h : resolveItem plugin copies index decoded = .ok kept) :
    Resolves plugin copies decoded kept := by
  simp only [resolveItem] at h
  split_ifs at h with hnative
  · rw [Resolves, if_pos hnative]
    exact (Except.ok.inj h).symm
  · rw [Resolves, if_neg hnative]
    split at h
    case h_1 => cases h
    case h_2 subject app hsubject =>
      obtain ⟨s, hdecode, hkind⟩ := Option.bind_eq_some_iff.mp hsubject
      split_ifs at hkind with happ
      obtain ⟨a, hfacts, hpair⟩ := Option.map_eq_some_iff.mp hkind
      obtain ⟨rfl, rfl⟩ := Prod.mk.inj hpair
      obtain ⟨path, hpath, hitem⟩ := bind_eq_ok.mp h
      split_ifs at hitem with hempty
      exact ⟨s, a, path, hdecode, happ, hfacts, hempty,
        copyRule_of_installedPath (mapError_eq_ok.mp hpath), mapError_eq_ok.mp hitem⟩

theorem resolves_of_resolveItems {index : Nat} {entries items : List Json}
    (h : resolveItems plugin copies index entries = .ok items) :
    List.Forall₂ (Resolves plugin copies) entries items := by
  induction entries generalizing index items with
  | nil =>
    rw [resolveItems, Except.ok.injEq] at h
    exact h ▸ List.Forall₂.nil
  | cons entry entries ih =>
    obtain ⟨native, hnative, hrest⟩ := bind_eq_ok.mp h
    obtain ⟨rest, hitems, heq⟩ := bind_eq_ok.mp hrest
    rw [← Except.ok.inj heq]
    exact List.Forall₂.cons (resolves_of_resolveItem hnative) (ih hitems)

theorem resolveSubjects_cases (h : resolveSubjects plugin explicit = .ok explicit') :
    (∃ entries items, explicit "installs" = some (.array entries) ∧
      List.Forall₂ (Resolves plugin (copiesOf explicit)) entries items ∧
      explicit' = Function.update explicit "installs" (some (.array items))) ∨
    ((∀ entries, explicit "installs" ≠ some (.array entries)) ∧ explicit' = explicit) := by
  simp only [resolveSubjects] at h
  split at h
  case h_1 entries hentries =>
    left
    cases hitems : resolveItems plugin (copiesOf explicit) 0 entries with
    | error e =>
      simp only [copiesOf] at hitems
      simp [hitems, Except.map] at h
    | ok items =>
      refine ⟨entries, items, hentries, resolves_of_resolveItems hitems, ?_⟩
      simp only [copiesOf] at hitems
      simpa [hitems, Except.map, eq_comm] using h
  case h_2 hnone => exact Or.inr ⟨fun entries heq => hnone entries heq, (Except.ok.inj h).symm⟩

theorem resolveSubjects_other (h : resolveSubjects plugin explicit = .ok explicit') {key : String}
    (hkey : key ≠ "installs") : explicit' key = explicit key := by
  rcases resolveSubjects_cases h with ⟨entries, items, -, -, rfl⟩ | ⟨-, rfl⟩
  · exact Function.update_of_ne hkey _ _
  · rfl

theorem resolveSubjects_isSome (h : resolveSubjects plugin explicit = .ok explicit') (key : String) :
    (explicit' key).isSome = (explicit key).isSome := by
  rcases resolveSubjects_cases h with ⟨entries, items, hentries, -, rfl⟩ | ⟨-, rfl⟩
  · by_cases hkey : key = "installs"
    · rw [hkey, Function.update_self, hentries]
      rfl
    · rw [Function.update_of_ne hkey]
  · rfl

/-- The key or the value is none of an installs list. -/
def Plain (key : String) (value : Json) : Prop := key ≠ "installs" ∨ ∀ entries, value ≠ .array entries

theorem declaredKept_plain {key : String} {value : Json} {kept : Option Json} (h : Plain key value) :
    DeclaredKept plugin declared key value kept ↔ kept = some value := by
  simp only [DeclaredKept]
  split
  case h_1 entries => exact absurd h (by simp [Plain])
  case h_2 => exact Iff.rfl

theorem stayingParts_plain {key : String} {value : Json} (h : Plain key value) :
    stayingParts key value = [value] := by
  simp only [stayingParts]
  split
  case h_1 entries => exact absurd h (by simp [Plain])
  case h_2 => rfl

theorem entryKept_iff (hdecode : entry.viaAny = some decoded) (hresolves : Resolves plugin copies decoded kept) :
    EntryKept plugin copies entry kept ↔
      (isNative entry = true → ∀ number ∈ entry.numbers, Json.Survives number) := by
  rw [EntryKept]
  rw [Resolves, isNative_viaAny hdecode] at hresolves
  split_ifs at hresolves ⊢ with hnative
  · rw [hresolves]
    constructor
    · rintro rfl -
      exact Json.viaAny_eq_self_iff.mp hdecode
    · intro hsurvive
      have hself := Json.viaAny_eq_self_iff.mpr (hsurvive hnative)
      exact Option.some.inj (hdecode.symm.trans hself)
  · obtain ⟨subject, app, path, hrest⟩ := hresolves
    exact ⟨fun _ hfalse => absurd hfalse hnative, fun _ => ⟨decoded, subject, app, path, hdecode, hrest⟩⟩

theorem entriesKept_iff {entries decodes items : List Json}
    (hdecode : List.Forall₂ (fun entry d => entry.viaAny = some d) entries decodes)
    (hresolves : List.Forall₂ (Resolves plugin copies) decodes items) :
    List.Forall₂ (EntryKept plugin copies) entries items ↔
      ∀ part ∈ entries.filter (fun entry => isNative entry), ∀ number ∈ part.numbers, Json.Survives number := by
  induction hdecode generalizing items with
  | nil =>
    cases hresolves
    simp
  | @cons entry d entries ds hentry hentries ih =>
    cases hresolves with
    | cons hitem hitems =>
      rw [List.forall₂_cons, entryKept_iff hentry hitem, ih hitems, List.filter_cons]
      by_cases hnative : isNative entry = true
      · simp [hnative]
      · simp [hnative]

/-- A declared value is kept exactly when the numbers of what is to stay survive. -/
theorem declaredKept_iff {key : String} {value : Json} (hvalue : declared.lookup key = some value)
    (hdecodes : value.viaAny.isSome = true)
    (h : resolveSubjects plugin (decodedFields declared) = .ok explicit) :
    DeclaredKept plugin declared key value (explicit key) ↔
      ∀ part ∈ stayingParts key value, ∀ number ∈ part.numbers, Json.Survives number := by
  have hdecoded : decodedFields declared key = value.viaAny := by
    rw [decodedFields, hvalue]
    rfl
  by_cases hplain : Plain key value
  · rw [declaredKept_plain hplain, stayingParts_plain hplain]
    have hexplicit : explicit key = value.viaAny := by
      rcases resolveSubjects_cases h with ⟨entries, items, hentries, -, rfl⟩ | ⟨-, rfl⟩
      · have hkey : key ≠ "installs" := by
          rintro rfl
          rw [hdecoded] at hentries
          rcases hplain with hne | hnone
          · exact hne rfl
          · cases value with
            | array items => exact hnone items rfl
            | null => cases hentries
            | bool value => cases hentries
            | string value => cases hentries
            | number value =>
              obtain ⟨q, -, heq⟩ := Option.map_eq_some_iff.mp hentries
              cases heq
            | object fields =>
              obtain ⟨fs, -, heq⟩ := Option.map_eq_some_iff.mp hentries
              cases heq
        rw [Function.update_of_ne hkey, hdecoded]
      · exact hdecoded
    rw [hexplicit, List.forall_mem_singleton]
    exact Json.viaAny_eq_self_iff
  · obtain ⟨rfl, entries, rfl⟩ : key = "installs" ∧ ∃ entries, value = .array entries := by
      simpa [Plain] using hplain
    obtain ⟨decoded, hsome⟩ := Option.isSome_iff_exists.mp hdecodes
    obtain ⟨ds, hds, rfl⟩ := Option.map_eq_some_iff.mp hsome
    rw [hsome] at hdecoded
    rcases resolveSubjects_cases h with ⟨ds', items, hds', hitems, rfl⟩ | ⟨hnone, -⟩
    · obtain rfl : ds = ds' := by
        rw [hdecoded] at hds'
        simpa using hds'
      have hiff := entriesKept_iff (Json.itemsViaAny_forall₂ hds) hitems
      rw [Function.update_self]
      constructor
      · intro ⟨items', heq, hkept⟩
        obtain rfl : items = items' := by simpa using heq
        exact hiff.mp hkept
      · exact fun hsurvive => ⟨items, rfl, hiff.mpr hsurvive⟩
    · exact absurd hdecoded (hnone ds)

end

section

variable {plugin : Plugin} {d d' : NativeDefaults} {subject : Subject} {app : AppFacts}
  {versionKey kind source endpoint path : String}

theorem putCopy_cases (h : d.putCopy source endpoint = .ok d') : Touches ["items_to_copy"] d d' := by
  simp only [NativeDefaults.putCopy] at h
  split_ifs at h
  · exact Except.ok.inj h ▸ (Touches.refl d).mono (List.nil_subset _)
  · exact Except.ok.inj h ▸ touches_put

theorem copyDestination_cases (h : d.copyDestination source endpoint = .ok (d', path)) :
    Touches ["items_to_copy"] d d' ∧
      (d.detects = true → CopyRule (copiesOf d'.values) source endpoint path) := by
  obtain ⟨d₁, hput, hrest⟩ := bind_eq_ok.mp h
  have htouches := putCopy_cases hput
  rw [htouches.detects_eq] at hrest
  split_ifs at hrest with hdetects
  · obtain ⟨rfl, rfl⟩ := Prod.mk.inj (Except.ok.inj hrest)
    exact ⟨htouches, fun htrue => absurd (hdetects.symm.trans htrue) nofun⟩
  · split at hrest
    case h_1 => cases hrest
    case h_2 copies hcopies =>
      cases hpath : installedPath source endpoint copies with
      | error e => simp [hpath, Except.map] at hrest
      | ok found =>
        obtain ⟨rfl, rfl⟩ : d₁ = d' ∧ found = path := by simpa [hpath, Except.map] using hrest
        refine ⟨htouches, fun _ => ?_⟩
        rw [copiesOf, hcopies]
        exact copyRule_of_installedPath hpath

/-- The application adds a copy, and an installs list when derivation detects. -/
theorem application_cases (h : d.application plugin subject app versionKey kind = .ok d') :
    ∃ d₁ endpoint, Touches ["items_to_copy"] d d₁ ∧
      (d.detects = true → if kind = "copy_from_dmg"
        then CopyRule (copiesOf d₁.values) subject.path subject.installedPath endpoint
        else endpoint = subject.installedPath) ∧
      ((d.detects = false ∧ d' = d₁) ∨
        (d.detects = true ∧ endpoint ≠ "" ∧ ∃ item, applicationItem plugin app endpoint versionKey = .ok item ∧
          d' = d₁.put "installs" (.array [item]) "app.installed_path")) := by
  obtain ⟨⟨d₁, endpoint⟩, hendpoint, hrest⟩ := bind_eq_ok.mp h
  have hcopied : Touches ["items_to_copy"] d d₁ ∧ (d.detects = true → if kind = "copy_from_dmg"
      then CopyRule (copiesOf d₁.values) subject.path subject.installedPath endpoint
      else endpoint = subject.installedPath) := by
    simp only [NativeDefaults.endpointOf] at hendpoint
    split_ifs at hendpoint ⊢ with hkind
    · exact copyDestination_cases hendpoint
    · obtain ⟨rfl, rfl⟩ := Prod.mk.inj (Except.ok.inj hendpoint)
      exact ⟨(Touches.refl d).mono (List.nil_subset _), fun _ => rfl⟩
  refine ⟨d₁, endpoint, hcopied.1, hcopied.2, ?_⟩
  simp only [hcopied.1.detects_eq] at hrest
  split_ifs at hrest with hdetects hempty
  · exact Or.inl ⟨hdetects, (Except.ok.inj hrest).symm⟩
  · obtain ⟨item, hitem, hput⟩ := bind_eq_ok.mp hrest
    exact Or.inr ⟨by simpa using hdetects, hempty, item, mapError_eq_ok.mp hitem, (Except.ok.inj hput).symm⟩

theorem touches_application (h : d.application plugin subject app versionKey kind = .ok d') :
    Touches ["items_to_copy", "installs"] d d' := by
  obtain ⟨d₁, endpoint, htouches, -, ⟨-, rfl⟩ | ⟨-, -, item, -, rfl⟩⟩ := application_cases h
  · exact htouches.mono (by simp)
  · exact htouches.trans touches_put

end

section

variable {plugin : Plugin} {request : ReconcileRequest} {declared : AList (fun _ : String => Json)}
  {derived : Derived} {explicit : Fields} {d d' : NativeDefaults} {kind : String}

theorem installerType_fst (artifact : Artifact) : (d.installerType artifact).1 =
    if d.declaredKind ≠ "" then d.declaredKind else NativeDefaults.formatKind artifact := by
  simp only [NativeDefaults.installerType]
  split_ifs with hdeclared hformat
  · rfl
  · rfl
  · exact (not_not.mp hformat).symm

theorem touches_selectedApplication {selected : Option (Subject × AppFacts)} {versionKey : String}
    (h : d.selectedApplication plugin selected versionKey kind = .ok d') :
    Touches ["items_to_copy", "installs"] d d' := by
  cases selected with
  | none => exact Except.ok.inj h ▸ (Touches.refl d).mono (List.nil_subset _)
  | some selected => exact touches_application h

/-- The state before the kind of installer matters. -/
def described (request : ReconcileRequest) (explicit : Fields) : NativeDefaults :=
  ((describe request (identify request explicit)).installerType request.artifact).2

def installedKind (request : ReconcileRequest) (explicit : Fields) : String :=
  ((describe request (identify request explicit)).installerType request.artifact).1

theorem explicit_identify : (identify request explicit).explicit = explicit := touches_put.explicit

theorem touches_described (h : explicit "minimum_os_version" = none) :
    Touches ["version", "minimum_os_version", "installer_type"] (identify request explicit)
      (described request explicit) := by
  have hdeclared : (identify request explicit).declared "minimum_os_version" = false := by
    rw [NativeDefaults.declared, explicit_identify, h]
    rfl
  exact (touches_describe hdeclared).trans touches_installerType

theorem values_identify {key : String} (h : key ≠ "name" ∨ (explicit key).isSome = true) :
    (identify request explicit).values key = explicit key := by
  rcases h with hne | hsome
  · exact touches_put.other key (by simpa using hne)
  · exact touches_put.declared key hsome

theorem declared_described (h : explicit "minimum_os_version" = none) (key : String) :
    (described request explicit).declared key = (explicit key).isSome := by
  rw [(touches_described h).declared_eq, NativeDefaults.declared, explicit_identify]

theorem values_described (h : explicit "minimum_os_version" = none) {key : String}
    (hkey : key ∉ ["name", "version", "minimum_os_version", "installer_type"] ∨ (explicit key).isSome = true) :
    (described request explicit).values key = explicit key := by
  rcases hkey with hkey | hsome
  · simp only [List.mem_cons, not_or] at hkey
    rw [(touches_described h).other key (by simp [hkey])]
    exact values_identify (Or.inl hkey.1)
  · rw [(touches_described h).declared key
      (by rw [NativeDefaults.declared, explicit_identify]; exact hsome)]
    exact values_identify (Or.inr hsome)

/-- How a derivation for a prepared artifact goes. -/
theorem derive_cases (h : derive plugin request declared = .ok derived)
    (hprepared : request.prepared = true ∨ request.artifact.path ≠ "") :
    ∃ explicit, resolveSubjects plugin (decodedFields declared) = .ok explicit ∧
      (∀ key value, declared.lookup key = some value → value.viaAny.isSome = true) ∧
      ((installedKind request explicit = "nopkg" ∧
          derived = (described request explicit).result (installedKind request explicit)) ∨
        ∃ selected versionKey d, macEvidence plugin request.artifact = .ok (selected, versionKey) ∧
          ((described request explicit).packageDefaults request.artifact.subjects
            (installedKind request explicit)).selectedApplication plugin selected versionKey
            (installedKind request explicit) = .ok d ∧
          derived = (d.uninstall (installedKind request explicit)).result (installedKind request explicit)) := by
  obtain ⟨fields, hfields, hrest⟩ := bind_eq_ok.mp h
  obtain ⟨rfl, hdecodes⟩ := unmarshal_cases hfields
  obtain ⟨explicit, hexplicit, hrest⟩ := bind_eq_ok.mp hrest
  refine ⟨explicit, hexplicit, hdecodes, ?_⟩
  have hdynamic : ¬(request.prepared = false ∧ request.artifact.path = "") := by
    intro ⟨hstatic, hpath⟩
    rcases hprepared with hprepared | hne
    · rw [hprepared] at hstatic
      cases hstatic
    · exact hne hpath
  rw [if_neg hdynamic] at hrest
  simp only [derivePrepared] at hrest
  split_ifs at hrest with hnopkg hcontent
  · exact Or.inl ⟨hnopkg, (Except.ok.inj hrest).symm⟩
  · right
    obtain ⟨⟨selected, versionKey⟩, hevidence, hrest⟩ := bind_eq_ok.mp hrest
    obtain ⟨d, happlied, hrest⟩ := bind_eq_ok.mp hrest
    refine ⟨selected, versionKey, d, hevidence, happlied, ?_⟩
    split_ifs at hrest
    exact (Except.ok.inj hrest).symm

/-- The keys that a prepared artifact may fill in. -/
def filledKeys : List String :=
  ["receipts", "installed_size", "RestartAction", "items_to_copy", "installs", "uninstallable",
    "uninstall_method"]

theorem touches_installer {selected : Option (Subject × AppFacts)} {versionKey : String}
    (h : (d.packageDefaults request.artifact.subjects kind).selectedApplication plugin selected versionKey kind =
      .ok d') : Touches filledKeys d (d'.uninstall kind) :=
  ((touches_packageDefaults.trans (touches_selectedApplication h)).trans touches_uninstall).mono
    (by simp [filledKeys])

theorem values_of_declared (hmin : explicit "minimum_os_version" = none)
    (htouches : Touches filledKeys (described request explicit) d) {key : String}
    (hkey : (explicit key).isSome = true) : (d.result kind).values key = explicit key := by
  have hvalue : d.values key = explicit key := by
    rw [htouches.declared key (by rw [declared_described hmin]; exact hkey)]
    exact values_described hmin (Or.inr hkey)
  change (d.values key).or _ = _
  rw [hvalue, Option.or_of_isSome hkey]

theorem declared_minimum (hmin : declared.lookup "minimum_os_version" = none)
    (h : resolveSubjects plugin (decodedFields declared) = .ok explicit) :
    explicit "minimum_os_version" = none := by
  rw [resolveSubjects_other h (by decide), decodedFields, hmin]
  rfl

theorem isSome_explicit (h : resolveSubjects plugin (decodedFields declared) = .ok explicit)
    (hdecodes : ∀ key value, declared.lookup key = some value → value.viaAny.isSome = true) (key : String) :
    (explicit key).isSome = (declared.lookup key).isSome := by
  rw [resolveSubjects_isSome h, decodedFields]
  cases hlookup : declared.lookup key with
  | none => rfl
  | some value => exact hdecodes key value hlookup

theorem installedKind_eq (hmin : declared.lookup "minimum_os_version" = none)
    (h : resolveSubjects plugin (decodedFields declared) = .ok explicit) :
    installedKind request explicit = installerKind request declared := by
  have hdeclared : (identify request explicit).declared "minimum_os_version" = false := by
    rw [NativeDefaults.declared, explicit_identify, declared_minimum hmin h]
    rfl
  have hvalue : (describe request (identify request explicit)).values "installer_type" =
      (declared.lookup "installer_type").bind Json.viaAny := by
    rw [(touches_describe hdeclared).other _ (by decide), values_identify (Or.inl (by decide)),
      resolveSubjects_other h (by decide), decodedFields]
  have htext (kind : String) : (declared.lookup "installer_type").bind Json.viaAny = some (.string kind) ↔
      declared.lookup "installer_type" = some (.string kind) := by
    constructor
    · intro hkind
      obtain ⟨value, hlookup, hvia⟩ := Option.bind_eq_some_iff.mp hkind
      rw [hlookup, viaAny_eq_string hvia]
    · intro hkind
      rw [hkind]
      rfl
  rw [installedKind, installerType_fst]
  by_cases hstring : ∃ kind, declared.lookup "installer_type" = some (.string kind)
  · obtain ⟨kind, hkind⟩ := hstring
    rw [NativeDefaults.declaredKind, hvalue, (htext kind).mpr hkind, installerKind, hkind]
  · have hkind : (describe request (identify request explicit)).declaredKind = "" := by
      rw [NativeDefaults.declaredKind, hvalue]
      split
      case h_1 kind hkind => exact absurd ⟨kind, (htext kind).mp hkind⟩ hstring
      case h_2 => rfl
    rw [hkind, if_neg (not_not_intro rfl), installerKind]
    split
    case h_1 kind hkind => exact absurd ⟨kind, hkind⟩ hstring
    case h_2 => rfl

end

section

variable {values : Fields} {current published fresh : OwnedFields} {value : Option Json}

theorem mergeText_congr (h : value.isSome = true) (a b : String) : mergeText a value = mergeText b value := by
  cases value with
  | none => cases h
  | some v => cases v <;> rfl

theorem mergeBool_congr (h : value.isSome = true) (a b : Bool) : mergeBool a value = mergeBool b value := by
  cases value with
  | none => cases h
  | some v => cases v <;> rfl

theorem mergeInt_congr (h : value.isSome = true) (a b : Int) : mergeInt a value = mergeInt b value := by
  cases value with
  | none => cases h
  | some v => cases v <;> rfl

theorem mergeList_congr (h : value.isSome = true) (a b : List Json) : mergeList a value = mergeList b value := by
  cases value with
  | none => cases h
  | some v => cases v <;> rfl

theorem isSome_importList {aliases : List (String × String)} {patch : Option Json}
    (h : importList aliases value = some patch) : patch.isSome = value.isSome := by
  cases value with
  | none => rw [← Option.some.inj h]
  | some v =>
    cases v with
    | array entries =>
      obtain ⟨es, -, rfl⟩ := Option.map_eq_some_iff.mp h
      rfl
    | null => cases h
    | bool value => cases h
    | number value => cases h
    | string value => cases h
    | object fields => cases h

theorem isSome_importRestartAction : (importRestartAction value).isSome = value.isSome := by
  simp only [importRestartAction]
  split <;> rfl

/-- Each owned field is merged on its own. -/
theorem publish_cases (h : publish values current = some published) : ∃ receipts installs,
    importList receiptAliases (values "receipts") = some receipts ∧
    importList installAliases (values "installs") = some installs ∧
    mergeList current.receipts receipts = some published.receipts ∧
    mergeList current.installs installs = some published.installs ∧
    mergeList current.itemsToCopy (values "items_to_copy") = some published.itemsToCopy ∧
    mergeInt current.installedSize (values "installed_size") = some published.installedSize ∧
    mergeText current.restartAction (importRestartAction (values "RestartAction")) =
      some published.restartAction ∧
    mergeBool current.uninstallable (values "uninstallable") = some published.uninstallable ∧
    mergeText current.uninstallMethod (values "uninstall_method") = some published.uninstallMethod ∧
    mergeText current.minimumOSVersion (values "minimum_os_version") = some published.minimumOSVersion := by
  obtain ⟨receipts, hreceipts, h⟩ := Option.bind_eq_some_iff.mp h
  obtain ⟨installs, hinstalls, h⟩ := Option.bind_eq_some_iff.mp h
  obtain ⟨_, h₁, h⟩ := Option.bind_eq_some_iff.mp h
  obtain ⟨_, h₂, h⟩ := Option.bind_eq_some_iff.mp h
  obtain ⟨_, h₃, h⟩ := Option.bind_eq_some_iff.mp h
  obtain ⟨_, h₄, h⟩ := Option.bind_eq_some_iff.mp h
  obtain ⟨_, h₅, h⟩ := Option.bind_eq_some_iff.mp h
  obtain ⟨_, h₆, h⟩ := Option.bind_eq_some_iff.mp h
  obtain ⟨_, h₇, h⟩ := Option.bind_eq_some_iff.mp h
  obtain ⟨_, h₈, h⟩ := Option.bind_eq_some_iff.mp h
  obtain rfl := Option.some.inj h
  exact ⟨receipts, installs, hreceipts, hinstalls, h₁, h₂, h₃, h₄, h₅, h₆, h₇, h₈⟩

/-- The owned fields but the installs list. -/
def alwaysManaged : List String :=
  ["receipts", "items_to_copy", "installed_size", "RestartAction", "uninstallable", "uninstall_method",
    "minimum_os_version"]

/-- What is published to the fields that are always managed does not depend on what was there. -/
theorem publish_other (hmanaged : ∀ key ∈ alwaysManaged, (values key).isSome = true)
    (h : publish values current = some published) (h' : publish values {} = some fresh) :
    published = { fresh with installs := published.installs } := by
  obtain ⟨receipts, installs, hreceipts, -, h₁, -, h₃, h₄, h₅, h₆, h₇, h₈⟩ := publish_cases h
  obtain ⟨receipts', installs', hreceipts', -, h₁', -, h₃', h₄', h₅', h₆', h₇', h₈'⟩ := publish_cases h'
  obtain rfl := Option.some.inj (hreceipts.symm.trans hreceipts')
  simp only [alwaysManaged, List.forall_mem_cons] at hmanaged
  obtain ⟨hr, hc, hs, ha, hu, hm, ho, -⟩ := hmanaged
  apply OwnedFields.ext
  · rw [mergeList_congr ((isSome_importList hreceipts).trans hr) current.receipts [], h₁'] at h₁
    exact (Option.some.inj h₁).symm
  · rfl
  · rw [mergeList_congr hc current.itemsToCopy [], h₃'] at h₃
    exact (Option.some.inj h₃).symm
  · rw [mergeInt_congr hs current.installedSize 0, h₄'] at h₄
    exact (Option.some.inj h₄).symm
  · rw [mergeText_congr (isSome_importRestartAction.trans ha) current.restartAction "", h₅'] at h₅
    exact (Option.some.inj h₅).symm
  · rw [mergeBool_congr hu current.uninstallable false, h₆'] at h₆
    exact (Option.some.inj h₆).symm
  · rw [mergeText_congr hm current.uninstallMethod "", h₇'] at h₇
    exact (Option.some.inj h₇).symm
  · rw [mergeText_congr ho current.minimumOSVersion "", h₈'] at h₈
    exact (Option.some.inj h₈).symm

theorem publish_supplied (hmanaged : ∀ key ∈ alwaysManaged, (values key).isSome = true)
    (hinstalls : (values "installs").isSome = true) (h : publish values current = some published)
    (h' : publish values {} = some fresh) : published = fresh := by
  obtain ⟨-, installs, -, himport, -, h₂, -⟩ := publish_cases h
  obtain ⟨-, installs', -, himport', -, h₂', -⟩ := publish_cases h'
  obtain rfl := Option.some.inj (himport.symm.trans himport')
  rw [mergeList_congr ((isSome_importList himport).trans hinstalls) current.installs [], h₂'] at h₂
  rw [publish_other hmanaged h h', ← Option.some.inj h₂]

theorem publish_unsupplied (hmanaged : ∀ key ∈ alwaysManaged, (values key).isSome = true)
    (hinstalls : values "installs" = none) (h : publish values current = some published)
    (h' : publish values {} = some fresh) :
    published = { fresh with installs := current.installs } := by
  obtain ⟨-, installs, -, himport, -, h₂, -⟩ := publish_cases h
  have hnone : installs = none := by
    rw [← Option.not_isSome_iff_eq_none, isSome_importList himport, hinstalls]
    decide
  rw [hnone] at h₂
  rw [publish_other hmanaged h h', ← Option.some.inj h₂]

end

section

variable {plugin : Plugin} {request : ReconcileRequest} {declared : AList (fun _ : String => Json)}
  {derived : Derived} {explicit : Fields} {d d' : NativeDefaults} {kind key : String}

theorem values_result : (d.result kind).values key = (d.values key).or (d.clearedDefaults kind key) := rfl

theorem isSome_result (hkind : kind = "pkg" ∨ kind = "copy_from_dmg")
    (hmin : (d.values "minimum_os_version").isSome = true) :
    ∀ key ∈ alwaysManaged, ((d.result kind).values key).isSome = true := by
  simp only [alwaysManaged, List.forall_mem_cons, values_result, NativeDefaults.clearedDefaults, if_pos hkind,
    Option.isSome_or]
  simp [hmin]

theorem values_minimum (hmin : explicit "minimum_os_version" = none)
    (htouches : Touches filledKeys (described request explicit) d) :
    (d.values "minimum_os_version").isSome = true := by
  have hdeclared : (identify request explicit).declared "minimum_os_version" = false := by
    rw [NativeDefaults.declared, explicit_identify, hmin]
    rfl
  rw [htouches.other _ (by decide), described, touches_installerType.other _ (by decide)]
  exact values_describe hdeclared

theorem detects_described (hmin : explicit "minimum_os_version" = none) :
    (described request explicit).detects = (!(explicit "installcheck_script").isSome &&
      !(explicit "receipts").isSome && !(explicit "installs").isSome) := by
  simp only [NativeDefaults.detects, declared_described hmin]

/-- A method of removal that is not declared comes with what it removes. -/
theorem uninstall_cases (hvalues : ∀ key, d.declared key = true → d.values key = d.explicit key) :
    (d.uninstall kind).values "uninstall_method" = d.values "uninstall_method" ∨
      ((d.uninstall kind).values "uninstallable" = some (.bool true) ∧
        (NativeDefaults.hasEntries (d.values "receipts") = true ∨
          NativeDefaults.hasEntries (d.values "items_to_copy") = true)) := by
  by_cases hdeclared : d.declared "uninstall_method" = true
  · exact Or.inl (touches_uninstall.declared _ hdeclared)
  · simp only [NativeDefaults.uninstall]
    split_ifs with hmethod
    · right
      constructor
      · rw [touches_put.other _ (by decide)]
        by_cases huninstallable : d.declared "uninstallable" = true
        · rw [put_of_declared huninstallable, hvalues _ huninstallable]
          have hremovable := hmethod.2
          simp only [NativeDefaults.removable] at hremovable
          split at hremovable
          case h_1 value hvalue => rw [hvalue, hremovable]
          case h_2 => cases hremovable
          case h_3 hnone =>
            rw [NativeDefaults.declared, hnone] at huninstallable
            cases huninstallable
        · exact values_put (by simpa using huninstallable)
      · have hremoval := hmethod.1
        simp only [NativeDefaults.removal, if_neg hdeclared] at hremoval
        split_ifs at hremoval with hreceipts hcopies
        · exact Or.inl hreceipts.2
        · exact Or.inr hcopies.2
        · exact absurd rfl hremoval
    · exact Or.inl rfl

/-- What a prepared artifact fills in. -/
structure Fills (plugin : Plugin) (request : ReconcileRequest) (kind : String) (d d' : NativeDefaults) : Prop where
  touches : Touches filledKeys d d'
  installs : d'.values "installs" = d.values "installs" ∨ (d.detects = true ∧ ∃ item,
    d'.values "installs" = some (.array [item]) ∧
      Located plugin request kind (copiesOf d'.values) item)
  removal : d'.values "uninstall_method" = d.values "uninstall_method" ∨
    (d'.values "uninstallable" = some (.bool true) ∧ (NativeDefaults.hasEntries (d'.values "receipts") = true ∨
      NativeDefaults.hasEntries (d'.values "items_to_copy") = true))

theorem Fills.refl (d : NativeDefaults) : Fills plugin request kind d d where
  touches := (Touches.refl d).mono (List.nil_subset _)
  installs := Or.inl rfl
  removal := Or.inl rfl

theorem copiesOf_congr {values values' : Fields} (h : values' "items_to_copy" = values "items_to_copy") :
    copiesOf values' = copiesOf values := by
  rw [copiesOf, copiesOf, h]

theorem selectedApplication_installs {selected : Option (Subject × AppFacts)} {versionKey : String}
    (hevidence : macEvidence plugin request.artifact = .ok (selected, versionKey))
    (h : d.selectedApplication plugin selected versionKey kind = .ok d') :
    d'.values "installs" = d.values "installs" ∨ (d.detects = true ∧ ∃ item,
      d'.values "installs" = some (.array [item]) ∧
        Located plugin request kind (copiesOf d'.values) item) := by
  cases selected with
  | none => exact Or.inl (by rw [← Except.ok.inj h])
  | some selected =>
    obtain ⟨d₁, endpoint, htouches, hendpoint, ⟨-, rfl⟩ | ⟨hdetects, hpath, item, hitem, rfl⟩⟩ :=
      application_cases h
    · exact Or.inl (htouches.other _ (by decide))
    · right
      have hundeclared : d₁.declared "installs" = false := by
        rw [← htouches.detects_eq] at hdetects
        simp only [NativeDefaults.detects, Bool.and_eq_true, Bool.not_eq_true'] at hdetects
        exact hdetects.2
      refine ⟨hdetects, item, values_put hundeclared, selected.1, selected.2, versionKey, endpoint, hevidence, hpath,
        hitem, ?_⟩
      rw [copiesOf_congr (touches_put.other "items_to_copy" (by decide))]
      exact hendpoint hdetects

theorem fills_installer {selected : Option (Subject × AppFacts)} {versionKey : String}
    (hvalues : ∀ key, d.declared key = true → d.values key = d.explicit key)
    (hevidence : macEvidence plugin request.artifact = .ok (selected, versionKey))
    (h : (d.packageDefaults request.artifact.subjects kind).selectedApplication plugin selected versionKey kind =
      .ok d') : Fills plugin request kind d (d'.uninstall kind) := by
  have hpackage : Touches ["receipts", "installed_size", "RestartAction"] d
      (d.packageDefaults request.artifact.subjects kind) := touches_packageDefaults
  have hselected := touches_selectedApplication h
  have hboth := hpackage.trans hselected
  have huninstall : Touches ["uninstallable", "uninstall_method"] d' (d'.uninstall kind) := touches_uninstall
  have hvalues' : ∀ key, d'.declared key = true → d'.values key = d'.explicit key := by
    intro key hkey
    rw [hboth.declared_eq] at hkey
    rw [hboth.declared key hkey, hvalues key hkey, hboth.explicit]
  constructor
  · exact touches_installer h
  · rw [huninstall.other _ (by decide), copiesOf_congr (huninstall.other _ (by decide)), ← hpackage.detects_eq,
      ← hpackage.other "installs" (by decide)]
    exact selectedApplication_installs hevidence h
  · rw [huninstall.other "receipts" (by decide), huninstall.other "items_to_copy" (by decide),
      ← hboth.other "uninstall_method" (by decide)]
    exact uninstall_cases hvalues'

/-- The values come from a state that the artifact fills in. -/
theorem derive_fills (h : derive plugin request declared = .ok derived)
    (hprepared : request.prepared = true ∨ request.artifact.path ≠ "")
    (hmin : declared.lookup "minimum_os_version" = none) :
    ∃ explicit d, resolveSubjects plugin (decodedFields declared) = .ok explicit ∧
      (∀ key value, declared.lookup key = some value → value.viaAny.isSome = true) ∧
      Fills plugin request (installerKind request declared) (described request explicit) d ∧
      derived = d.result (installerKind request declared) := by
  obtain ⟨explicit, hexplicit, hdecodes, hcases⟩ := derive_cases h hprepared
  rw [installedKind_eq hmin hexplicit] at hcases
  rcases hcases with ⟨-, rfl⟩ | ⟨selected, versionKey, d, hevidence, happlied, rfl⟩
  · exact ⟨explicit, _, hexplicit, hdecodes, Fills.refl _, rfl⟩
  · have hnone := declared_minimum hmin hexplicit
    have hvalues : ∀ key, (described request explicit).declared key = true →
        (described request explicit).values key = (described request explicit).explicit key := by
      intro key hkey
      rw [declared_described hnone] at hkey
      rw [values_described hnone (Or.inr hkey), (touches_described hnone).explicit, explicit_identify]
    exact ⟨explicit, _, hexplicit, hdecodes, fills_installer hvalues hevidence happlied, rfl⟩

theorem detects_of_declared (hexplicit : resolveSubjects plugin (decodedFields declared) = .ok explicit)
    (hdecodes : ∀ key value, declared.lookup key = some value → value.viaAny.isSome = true)
    (hmin : declared.lookup "minimum_os_version" = none) :
    (described request explicit).detects = (!(declared.lookup "installcheck_script").isSome &&
      !(declared.lookup "receipts").isSome && !(declared.lookup "installs").isSome) := by
  rw [detects_described (declared_minimum hmin hexplicit)]
  simp only [isSome_explicit hexplicit hdecodes]

/-- An installs list is among the values exactly when it is supplied. -/
theorem isSome_installs (hexplicit : resolveSubjects plugin (decodedFields declared) = .ok explicit)
    (hdecodes : ∀ key value, declared.lookup key = some value → value.viaAny.isSome = true)
    (hmin : declared.lookup "minimum_os_version" = none) (hkind : kind = "pkg" ∨ kind = "copy_from_dmg")
    (hfills : Fills plugin request kind (described request explicit) d) :
    ((d.result kind).values "installs").isSome = true ↔ SuppliesInstalls declared := by
  have hnone := declared_minimum hmin hexplicit
  have hdescribed : (described request explicit).values "installs" = explicit "installs" :=
    values_described hnone (Or.inl (by decide))
  have hdetects : (described request explicit).detects = (!(declared.lookup "installcheck_script").isSome &&
      !(declared.lookup "receipts").isSome && !(declared.lookup "installs").isSome) :=
    detects_of_declared hexplicit hdecodes hmin
  have hvalue : (d.values "installs").isSome = true ↔ (declared.lookup "installs").isSome = true ∨
      (d.values "installs").isSome = true ∧ (described request explicit).detects = true := by
    rw [← isSome_explicit hexplicit hdecodes, ← hdescribed]
    constructor
    · intro hsome
      rcases hfills.installs with heq | ⟨htrue, -⟩
      · exact Or.inl (heq ▸ hsome)
      · exact Or.inr ⟨hsome, htrue⟩
    · rintro (hsome | ⟨hsome, -⟩)
      · have hdeclared : (described request explicit).declared "installs" = true := by
          rw [declared_described hnone, ← hdescribed]
          exact hsome
        rw [hfills.touches.declared _ hdeclared]
        exact hsome
      · exact hsome
  rw [values_result, Option.isSome_or, Bool.or_eq_true, hvalue, SuppliesInstalls]
  simp only [NativeDefaults.clearedDefaults, if_pos hkind, hfills.touches.detects_eq]
  rw [hdetects]
  cases (declared.lookup "installs").isSome <;> cases (declared.lookup "receipts").isSome <;>
    cases (declared.lookup "installcheck_script").isSome <;> simp

/-- The items that are not declared are located. -/
theorem located_installs (hexplicit : resolveSubjects plugin (decodedFields declared) = .ok explicit)
    (hmin : declared.lookup "minimum_os_version" = none)
    (hfills : Fills plugin request kind (described request explicit) d)
    (hinstalls : declared.lookup "installs" = none) {items : List Json}
    (hitems : (d.result kind).values "installs" = some (.array items)) {item : Json} (hitem : item ∈ items) :
    Located plugin request kind (copiesOf (d.result kind).values) item := by
  have hnone : (described request explicit).values "installs" = none := by
    rw [values_described (declared_minimum hmin hexplicit) (Or.inl (by decide))]
    rcases resolveSubjects_cases hexplicit with ⟨entries, -, hentries, -, -⟩ | ⟨-, rfl⟩
    · rw [decodedFields, hinstalls] at hentries
      cases hentries
    · rw [decodedFields, hinstalls]
      rfl
  have hcopies : copiesOf (d.result kind).values = copiesOf d.values := by
    simp only [copiesOf, values_result, NativeDefaults.clearedDefaults]
    cases d.values "items_to_copy" with
    | some value => rfl
    | none => split_ifs <;> rfl
  rw [hcopies]
  rw [values_result] at hitems
  rcases hfills.installs with heq | ⟨-, native, heq, hlocated⟩
  · rw [heq, hnone, Option.none_or] at hitems
    simp only [NativeDefaults.clearedDefaults] at hitems
    split_ifs at hitems
    obtain rfl : items = [] := by simpa using hitems.symm
    cases hitem
  · obtain rfl : items = [native] := by simpa [heq] using hitems.symm
    rw [List.mem_singleton] at hitem
    exact hitem ▸ hlocated

theorem hasEntries_or {value value' : Option Json} (h : NativeDefaults.hasEntries value = true) :
    NativeDefaults.hasEntries (value.or value') = true := by
  cases value with
  | none => cases h
  | some v => exact h

/-- A derived method of removal comes with what it removes. -/
theorem removal_of_result (hexplicit : resolveSubjects plugin (decodedFields declared) = .ok explicit)
    (hmin : declared.lookup "minimum_os_version" = none)
    (hfills : Fills plugin request kind (described request explicit) d)
    (hmethod : declared.lookup "uninstall_method" = none) {method : String}
    (h : (d.result kind).values "uninstall_method" = some (.string method)) :
    (d.result kind).values "uninstallable" = some (.bool true) ∧
      (NativeDefaults.hasEntries ((d.result kind).values "receipts") = true ∨
        NativeDefaults.hasEntries ((d.result kind).values "items_to_copy") = true) := by
  have hnone : (described request explicit).values "uninstall_method" = none := by
    rw [values_described (declared_minimum hmin hexplicit) (Or.inl (by decide)),
      resolveSubjects_other hexplicit (by decide), decodedFields, hmethod]
    rfl
  rcases hfills.removal with heq | ⟨huninstallable, hentries⟩
  · rw [values_result, heq, hnone, Option.none_or] at h
    simp only [NativeDefaults.clearedDefaults] at h
    split_ifs at h
    cases h
  · simp only [values_result, huninstallable, Option.some_or]
    exact ⟨trivial, hentries.imp hasEntries_or hasEntries_or⟩

/-- Declared values win, a publication leaves nothing of an earlier one but an installs list
that it does not supply, and the derived fields agree with each other. -/
theorem derivation_lawful (h : derive plugin request declared = .ok derived)
    (hprepared : request.prepared = true ∨ request.artifact.path ≠ "")
    (hmin : declared.lookup "minimum_os_version" = none) :
    Lawful plugin request declared derived.values := by
  obtain ⟨explicit, d, hexplicit, hdecodes, hfills, rfl⟩ := derive_fills h hprepared hmin
  have hnone := declared_minimum hmin hexplicit
  have hminimum := values_minimum hnone hfills.touches
  constructor
  · intro key value hvalue hsurvive
    have hsome : (explicit key).isSome = true := by
      rw [isSome_explicit hexplicit hdecodes, hvalue]
      rfl
    rw [values_of_declared hnone hfills.touches hsome]
    exact (declaredKept_iff hvalue (hdecodes key value hvalue) hexplicit).mpr hsurvive
  · intro hmanaged hsupplies stored published fresh hpublished hfresh
    have hinstalls := (isSome_installs hexplicit hdecodes hmin hmanaged hfills).mpr hsupplies
    exact publish_supplied (isSome_result hmanaged hminimum) hinstalls hpublished hfresh
  · intro hmanaged hsupplies stored published fresh hpublished hfresh
    have hinstalls := mt (isSome_installs hexplicit hdecodes hmin hmanaged hfills).mp hsupplies
    exact publish_unsupplied (isSome_result hmanaged hminimum) (Option.not_isSome_iff_eq_none.mp hinstalls)
      hpublished hfresh
  · intro hmethod method hvalue
    exact removal_of_result hexplicit hmin hfills hmethod hvalue
  · intro hinstalls items hitems item hitem
    exact located_installs hexplicit hmin hfills hinstalls hitems hitem

end

def sampleSubject : Json → Option Subject
  | .object [("kind", .string kind), ("installed_path", .string installedPath),
      ("app", .object [("bundle_id", .string bundleID), ("version", .string version)])] =>
    some { kind, installedPath, app := some { bundleID, version } }
  | _ => none

def samplePlugin : Plugin where
  decodeSubject := sampleSubject
  unmarshalSubject := sampleSubject
  versionKey _ := "CFBundleShortVersionString"

def sampleApplication : Json :=
  .object [("kind", .string "app"), ("installed_path", .string "/Applications/Tool.app"),
    ("app", .object [("bundle_id", .string "test.tool"), ("version", .string "1.0")])]

/-- A package installer that brings an application. -/
def sampleRequest : ReconcileRequest where
  resourceName := "Tool"
  prepared := true
  artifact :=
    { path := "leased.pkg", format := "pkg", version := "1.0",
      evidence := fun key => if key = "macos.application" then some sampleApplication else none }

/-- A declaration whose receipts are the detection. -/
def declaredReceipts : AList (fun _ : String => Json) :=
  AList.singleton "receipts" (.array [.object [("packageid", .string "test.tool"), ("version", .string "1.0")]])

theorem derivation_lawful_receipts : ∃ derived, derive samplePlugin sampleRequest declaredReceipts = .ok derived ∧
    Lawful samplePlugin sampleRequest declaredReceipts derived.values :=
  ⟨_, rfl, derivation_lawful rfl (Or.inl rfl) rfl⟩

/-- Receipts that are declared after an installs list was derived leave that list. -/
theorem derived_installs_outlive_declared_receipts : ∃ first second stored published fresh,
    derive samplePlugin sampleRequest ∅ = .ok first ∧ publish first.values {} = some stored ∧
    derive samplePlugin sampleRequest declaredReceipts = .ok second ∧
    Managed sampleRequest declaredReceipts ∧
    publish second.values stored = some published ∧ publish second.values {} = some fresh ∧
    published ≠ fresh := by
  refine ⟨_, _, _, _, _, rfl, rfl, rfl, Or.inl (by decide), rfl, rfl, ?_⟩
  intro h
  -- one item in the list that was there, none in a list that never was
  have hlength := congrArg (fun fields => fields.installs.length) h
  exact absurd hlength (by decide)

end PkginfoDerivation
