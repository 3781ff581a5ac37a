import HeadlessAndroid.Lib.Arrange
import HeadlessAndroid.Lib.Utf8

/-!
# HeadlessAndroid.PackageHooks — the helper hidden from an app's PackageManager

`PackageManagerHooks.install` hooks the declared methods of `ApplicationPackageManager` by name.  The
methods themselves are Android's: they are the parameter `pm`, and `Documented` says what is known of
them.  An app that cannot see the helper gets from a hooked call what the unhooked one gives on the
packages without the helper.
-/

namespace HeadlessAndroid.Hooks

open Lib

/-- `OUR_PKG`. -/
def ourPkg : Text := "com.headless.mockloc".toList

/-! ## The installed packages -/

structure PackageDb (π : Type*) (name : π → Text) where
  packages : List π
  names_nodup : (packages.map name).Nodup

section Db

variable {π : Type*} {name : π → Text}

/-- The database with one package removed. -/
def PackageDb.without (D : PackageDb π name) (hide : Text) : PackageDb π name where
  packages := D.packages.filter fun p => name p ≠ hide
  names_nodup := D.names_nodup.sublist (List.filter_sublist.map name)

def PackageDb.lookup (D : PackageDb π name) (target : Text) : Option π :=
  D.packages.find? fun p => name p = target

theorem PackageDb.lookup_without_self (D : PackageDb π name) (hide : Text) :
    (D.without hide).lookup hide = none := by
  unfold lookup without
  rw [List.find?_eq_none]
  intro p hp hname
  have hne : name p ≠ hide := by simpa using (List.mem_filter.mp hp).2
  exact hne (by simpa using hname)

theorem PackageDb.lookup_without_other (D : PackageDb π name) {hide target : Text}
    (h : target ≠ hide) : (D.without hide).lookup target = D.lookup target := by
  unfold lookup without
  rw [List.find?_filter]
  congr 1
  funext p
  by_cases hp : name p = target
  · have : name p ≠ hide := by rw [hp]; exact h
    simp [hp, h]
  · simp [hp]

end Db

/-! ## Calls and their outcomes -/

structure ComponentInfo where
  packageName : Option Text

/-- What a list of the package manager holds; `ι` is the rest of the object. -/
inductive Item (ι : Type*) where
  | packageInfo (packageName : Option Text) (rest : ι)
  | applicationInfo (packageName : Option Text) (rest : ι)
  | resolveInfo (activityInfo serviceInfo providerInfo : Option ComponentInfo) (rest : ι)
  | other (rest : ι)

inductive Result (ι : Type*) where
  | null
  | list (items : List (Item ι))
  | object (item : Item ι)

/-- `other` is every exception but `NameNotFoundException`. -/
inductive Throwable (ε : Type*) where
  | nameNotFound (message : Text)
  | other (e : ε)

abbrev Outcome (ι ε : Type*) := Except (Throwable ε) (Result ι)

inductive Arg (α : Type*) where
  | string (s : Text)
  | versionedPackage (packageName : Text) (versionCode : ℤ)
  | other (a : α)

/-- A call of one overload of `method`. -/
structure Call (α : Type*) where
  method : Text
  args : List (Arg α)

/-! ## The hooks -/

section Hooks

variable {ι ε α : Type*}

/-- The `when` of `filterOut`. -/
def Item.pkg : Item ι → Option Text
  | .packageInfo packageName _ => packageName
  | .applicationInfo packageName _ => packageName
  | .resolveInfo activityInfo serviceInfo providerInfo _ =>
    (activityInfo.bind (·.packageName)).or
      ((serviceInfo.bind (·.packageName)).or (providerInfo.bind (·.packageName)))
  | .other _ => none

/-- The iterator's loop: an item of `hide` is removed. -/
def removeItems (hide : Text) : List (Item ι) → List (Item ι)
  | [] => []
  | item :: rest =>
    if item.pkg = some hide then removeItems hide rest else item :: removeItems hide rest

def filterOut (hide : Text) : Result ι → Result ι
  | .list items => .list (removeItems hide items)
  | result => result

/-- `getResult` of a call that threw is null. -/
def paramResult : Outcome ι ε → Result ι
  | .ok result => result
  | .error _ => .null

structure MethodHook (ι ε α : Type*) where
  /-- The throwable that it sets, which replaces the call. -/
  beforeHookedMethod : List (Arg α) → Option (Throwable ε)
  afterHookedMethod : Outcome ι ε → Outcome ι ε

/-- Setting the result clears what the call threw. -/
def filterHook (hide : Text) : MethodHook ι ε α where
  beforeHookedMethod _ := none
  afterHookedMethod outcome := .ok (filterOut hide (paramResult outcome))

def lookupHook (hide : Text) : MethodHook ι ε α where
  beforeHookedMethod args :=
    match args with
    | .string s :: _ => if s = hide then some (.nameNotFound hide) else none
    | _ => none
  afterHookedMethod outcome := outcome

def filteringNames : List Text :=
  ["getInstalledPackages".toList, "getInstalledApplications".toList,
    "queryIntentActivities".toList, "queryIntentServices".toList,
    "queryIntentReceivers".toList, "queryBroadcastReceivers".toList]

def lookupNames : List Text := ["getPackageInfo".toList, "getApplicationInfo".toList]

/-- The hooks that `install` puts on a declared method, overloads alike. -/
def install (hide method : Text) : List (MethodHook ι ε α) :=
  (if method ∈ filteringNames then [filterHook hide] else []) ++
    (if method ∈ lookupNames then [lookupHook hide] else [])

/-- A call through the hooks of its method. -/
def throughHooks : List (MethodHook ι ε α) → List (Arg α) → Outcome ι ε → Outcome ι ε
  | [], _, body => body
  | hook :: hooks, args, body =>
    match hook.beforeHookedMethod args with
    | some e => hook.afterHookedMethod (.error e)
    | none => hook.afterHookedMethod (throughHooks hooks args body)

/-- A call in a hooked app.  An overload may hand its arguments on to another declared overload,
which is hooked too: `passes` counts these. -/
def hookedCall (hide : Text) (c : Call α) : ℕ → Outcome ι ε → Outcome ι ε
  | 0, body => throughHooks (install hide c.method) c.args body
  | passes + 1, body =>
    throughHooks (install hide c.method) c.args (hookedCall hide c passes body)

/-! ## What a hooked call returns -/

theorem removeItems_eq_filter (hide : Text) (items : List (Item ι)) :
    removeItems hide items = items.filter fun item => !decide (item.pkg = some hide) := by
  induction items with
  | nil => rfl
  | cons item rest ih =>
    unfold removeItems
    by_cases h : item.pkg = some hide
    · rw [if_pos h, ih, List.filter_cons]
      simp [h]
    · rw [if_neg h, ih, List.filter_cons]
      simp [h]

theorem removeItems_idem (hide : Text) (items : List (Item ι)) :
    removeItems hide (removeItems hide items) = removeItems hide items := by
  simp [removeItems_eq_filter]

theorem filterOut_idem (hide : Text) (result : Result ι) :
    filterOut hide (filterOut hide result) = filterOut hide result := by
  cases result with
  | list items =>
    show Result.list _ = Result.list _
    rw [removeItems_idem]
  | null => rfl
  | object item => rfl

theorem not_lookup_of_filtering {method : Text} (h : method ∈ filteringNames) :
    method ∉ lookupNames := by
  revert method
  decide

theorem install_filtering {hide method : Text} (h : method ∈ filteringNames) :
    (install hide method : List (MethodHook ι ε α)) = [filterHook hide] := by
  unfold install
  rw [if_pos h, if_neg (not_lookup_of_filtering h), List.append_nil]

theorem install_lookup {hide method : Text} (h : method ∈ lookupNames) :
    (install hide method : List (MethodHook ι ε α)) = [lookupHook hide] := by
  have hf : method ∉ filteringNames := fun hf => not_lookup_of_filtering hf h
  unfold install
  rw [if_neg hf, if_pos h, List.nil_append]

/-- A listing is filtered once more or not: it makes no difference. -/
theorem hookedCall_filtering {hide : Text} {c : Call α} (h : c.method ∈ filteringNames)
    (passes : ℕ) (body : Outcome ι ε) :
    hookedCall hide c passes body = .ok (filterOut hide (paramResult body)) := by
  induction passes with
  | zero =>
    unfold hookedCall
    rw [install_filtering h]
    rfl
  | succ passes ih =>
    unfold hookedCall
    rw [install_filtering h, ih]
    show Except.ok (filterOut hide (filterOut hide (paramResult body))) = _
    rw [filterOut_idem]

/-- The call asks for `hide` by its name. -/
def Call.Names (c : Call α) (hide : Text) : Prop := c.args.head? = some (.string hide)

theorem hookedCall_lookup_named {hide : Text} {c : Call α} (h : c.method ∈ lookupNames)
    (hn : c.Names hide) (passes : ℕ) (body : Outcome ι ε) :
    hookedCall hide c passes body = .error (.nameNotFound hide) := by
  obtain ⟨rest, hargs⟩ := List.head?_eq_some_iff.mp hn
  have hbefore : (lookupHook hide : MethodHook ι ε α).beforeHookedMethod c.args =
      some (.nameNotFound hide) := by
    rw [hargs]
    exact if_pos rfl
  have hthrough : ∀ body : Outcome ι ε, throughHooks (install hide c.method) c.args body =
      .error (.nameNotFound hide) := by
    intro body
    rw [install_lookup h]
    unfold throughHooks
    rw [hbefore]
    rfl
  cases passes with
  | zero => exact hthrough body
  | succ passes => exact hthrough _

theorem lookupHook_before_other {hide : Text} :
    ∀ {args : List (Arg α)}, args.head? ≠ some (.string hide) →
      (lookupHook hide : MethodHook ι ε α).beforeHookedMethod args = none
  | [], _ => rfl
  | .string s :: _, h => if_neg fun hs => h (by rw [hs]; rfl)
  | .versionedPackage _ _ :: _, _ => rfl
  | .other _ :: _, _ => rfl

theorem hookedCall_lookup_other {hide : Text} {c : Call α} (h : c.method ∈ lookupNames)
    (hn : ¬c.Names hide) (passes : ℕ) (body : Outcome ι ε) :
    hookedCall hide c passes body = body := by
  have hbefore : (lookupHook hide : MethodHook ι ε α).beforeHookedMethod c.args = none :=
    lookupHook_before_other hn
  have hthrough : ∀ body : Outcome ι ε,
      throughHooks (install hide c.method) c.args body = body := by
    intro body
    rw [install_lookup h]
    unfold throughHooks
    rw [hbefore]
    rfl
  induction passes with
  | zero => exact hthrough body
  | succ passes ih =>
    unfold hookedCall
    rw [ih]
    exact hthrough body

end Hooks

/-! ## What Android documents of the hooked methods -/

/-- An entry of the package `n`.  A `ResolveInfo` has exactly one of its three components. -/
inductive Item.Of {ι : Type*} (n : Text) : Item ι → Prop
  | packageInfo (rest : ι) : Item.Of n (.packageInfo (some n) rest)
  | applicationInfo (rest : ι) : Item.Of n (.applicationInfo (some n) rest)
  | activity (rest : ι) : Item.Of n (.resolveInfo (some ⟨some n⟩) none none rest)
  | service (rest : ι) : Item.Of n (.resolveInfo none (some ⟨some n⟩) none rest)
  | provider (rest : ι) : Item.Of n (.resolveInfo none none (some ⟨some n⟩) rest)

theorem Item.Of.pkg_eq {ι : Type*} {n : Text} {item : Item ι} (h : item.Of n) :
    item.pkg = some n := by
  cases h <;> rfl

section Documented

variable {π ι ε α : Type*} {name : π → Text}

/-- The call throws `e` whatever is installed: an argument or a permission is missing. -/
def Refused (pm : PackageDb π name → Call α → Outcome ι ε) (c : Call α) (e : Throwable ε) : Prop :=
  ∀ D, pm D c = .error e

/-- The call lists the matching entries of every installed package in a stable order. -/
def Lists (pm : PackageDb π name → Call α → Outcome ι ε) (c : Call α) : Prop :=
  ∃ (items : π → List (Item ι)) (before : Item ι → Item ι → Prop) (_ : DecidableRel before),
    Std.Total before ∧ IsTrans (Item ι) before ∧ (∀ p, ∀ item ∈ items p, item.Of (name p)) ∧
      ∀ D, pm D c = .ok (.list ((D.packages.flatMap items).insertionSort before))

def foundOr (message : Text) : Option (Item ι) → Outcome ι ε
  | some item => .ok (.object item)
  | none => .error (.nameNotFound message)

/-- The call gives what it knows of the package `target`, if there is anything to give. -/
def Finds (pm : PackageDb π name → Call α → Outcome ι ε) (c : Call α) (target message : Text) :
    Prop :=
  ∃ info : π → Option (Item ι), ∀ D, pm D c = foundOr message ((D.lookup target).bind info)

/-- The call asks for some version of `target`. -/
def Call.NamesVersion (c : Call α) (target : Text) : Prop :=
  ∃ version, c.args.head? = some (.versionedPackage target version)

structure Documented (pm : PackageDb π name → Call α → Outcome ι ε) : Prop where
  listing : ∀ c : Call α, c.method ∈ filteringNames → (∃ e, Refused pm c e) ∨ Lists pm c
  string : ∀ (c : Call α) (s : Text), c.method ∈ lookupNames → c.Names s →
    (∃ e, Refused pm c e) ∨ Finds pm c s s
  versioned : ∀ (c : Call α) (s : Text), c.method ∈ lookupNames → c.NamesVersion s →
    (∃ e, Refused pm c e) ∨ ∃ message, Finds pm c s message
  /-- A lookup with nothing to look for. -/
  nameless : ∀ c : Call α, c.method ∈ lookupNames → (∀ s, ¬c.Names s) →
    (∀ s, ¬c.NamesVersion s) → ∃ e, Refused pm c e

theorem Finds.without_self {pm : PackageDb π name → Call α → Outcome ι ε} {c : Call α}
    {hide message : Text} (h : Finds pm c hide message) (D : PackageDb π name) :
    pm (D.without hide) c = .error (.nameNotFound message) := by
  obtain ⟨info, h⟩ := h
  rw [h, PackageDb.lookup_without_self]
  rfl

theorem Finds.without_other {pm : PackageDb π name → Call α → Outcome ι ε} {c : Call α}
    {hide target message : Text} (h : Finds pm c target message) (hne : target ≠ hide)
    (D : PackageDb π name) : pm (D.without hide) c = pm D c := by
  obtain ⟨info, h⟩ := h
  rw [h, h, PackageDb.lookup_without_other D hne]

/-- A listing without the helper is the filtered listing. -/
theorem Lists.without {pm : PackageDb π name → Call α → Outcome ι ε} {c : Call α}
    (h : Lists pm c) (hide : Text) (D : PackageDb π name) :
    pm (D.without hide) c = .ok (filterOut hide (paramResult (pm D c))) := by
  obtain ⟨items, before, hdec, htotal, htrans, hof, h⟩ := h
  rw [h, h]
  show Except.ok (Result.list _) = Except.ok (Result.list (removeItems hide _))
  have htag : ∀ p, ∀ item ∈ items p,
      (!decide (item.pkg = some hide)) = decide (name p ≠ hide) := by
    intro p item hitem
    rw [(hof p item hitem).pkg_eq]
    simp
  rw [removeItems_eq_filter, filter_insertionSort, filter_flatMap_of_tag items _ _ htag]
  rfl

/-! ## When the helper is not seen -/

/-- The listing does not throw; a lookup of `hide` by its name fails as for a missing package, if it
fails; and a lookup of a version of `hide` fails. -/
structure Covered (pm : PackageDb π name → Call α → Outcome ι ε) (hide : Text)
    (D : PackageDb π name) (c : Call α) : Prop where
  listing : c.method ∈ filteringNames → ∃ result, pm D c = .ok result
  named : c.method ∈ lookupNames → c.Names hide → ∀ e, pm D c = .error e → e = .nameNotFound hide
  versioned : c.method ∈ lookupNames → c.NamesVersion hide → ∀ result, pm D c ≠ .ok result

variable {pm : PackageDb π name → Call α → Outcome ι ε} {hide : Text} {D : PackageDb π name}
  {c : Call α}

theorem covered_of_filtering (h : c.method ∈ filteringNames) :
    Covered pm hide D c ↔ ∃ result, pm D c = .ok result :=
  ⟨fun hcov => hcov.listing h, fun hok => ⟨fun _ => hok,
    fun hl => absurd hl (not_lookup_of_filtering h), fun hl => absurd hl (not_lookup_of_filtering h)⟩⟩

theorem listing_unseen_iff (hpm : Documented pm) (h : c.method ∈ filteringNames) (passes : ℕ) :
    hookedCall hide c passes (pm D c) = pm (D.without hide) c ↔ Covered pm hide D c := by
  rw [hookedCall_filtering h, covered_of_filtering h]
  rcases hpm.listing c h with ⟨e, he⟩ | hl
  · -- the exception is cleared, and the app gets null for it
    rw [he, he]
    constructor
    · intro hnull
      cases hnull
    · rintro ⟨result, hok⟩
      cases hok
  · refine iff_of_true (hl.without hide D).symm ?_
    obtain ⟨items, before, hdec, -, -, -, hok⟩ := hl
    exact ⟨_, hok D⟩

theorem Call.Names.not_version {c : Call α} {s t : Text} (hs : c.Names s) :
    ¬c.NamesVersion t := by
  rintro ⟨version, ht⟩
  unfold Names at hs
  rw [hs] at ht
  cases ht

theorem named_unseen_iff (hpm : Documented pm) (h : c.method ∈ lookupNames) (hn : c.Names hide)
    (passes : ℕ) :
    hookedCall hide c passes (pm D c) = pm (D.without hide) c ↔ Covered pm hide D c := by
  have hcov : Covered pm hide D c ↔ ∀ e, pm D c = .error e → e = .nameNotFound hide :=
    ⟨fun hcov => hcov.named h hn, fun hall => ⟨fun hf => absurd h (not_lookup_of_filtering hf),
      fun _ _ => hall, fun _ hv => absurd hv hn.not_version⟩⟩
  rw [hookedCall_lookup_named h hn, hcov]
  rcases hpm.string c hide h hn with ⟨e, he⟩ | hfind
  · rw [he, he]
    constructor
    · rintro heq _ ⟨⟩
      cases heq
      rfl
    · intro hall
      rw [hall e rfl]
  · refine iff_of_true (hfind.without_self D).symm fun e he => ?_
    obtain ⟨info, hfind⟩ := hfind
    rw [hfind] at he
    cases hb : (D.lookup hide).bind info with
    | none =>
      rw [hb] at he
      cases he
      rfl
    | some item =>
      rw [hb] at he
      cases he

theorem version_unseen_iff (hpm : Documented pm) (h : c.method ∈ lookupNames)
    (hv : c.NamesVersion hide) (passes : ℕ) :
    hookedCall hide c passes (pm D c) = pm (D.without hide) c ↔ Covered pm hide D c := by
  have hn : ¬c.Names hide := fun hn => hn.not_version hv
  have hcov : Covered pm hide D c ↔ ∀ result, pm D c ≠ .ok result :=
    ⟨fun hcov => hcov.versioned h hv, fun hall => ⟨fun hf => absurd h (not_lookup_of_filtering hf),
      fun _ hn' => absurd hn' hn, fun _ _ => hall⟩⟩
  rw [hookedCall_lookup_other h hn, hcov]
  rcases hpm.versioned c hide h hv with ⟨e, he⟩ | ⟨message, hfind⟩
  · rw [he, he]
    refine iff_of_true rfl fun result hok => ?_
    cases hok
  · rw [hfind.without_self D]
    constructor
    · rintro he result hok
      rw [he] at hok
      cases hok
    · intro hall
      obtain ⟨info, hfind⟩ := hfind
      rw [hfind] at hall ⊢
      -- nothing is known of that version of the helper, or the app is told of it
      cases hb : (D.lookup hide).bind info with
      | none => rfl
      | some item =>
        rw [hb] at hall
        exact absurd rfl (hall _)

/-- A lookup of another package does not depend on the helper. -/
theorem other_unseen (hpm : Documented pm) (h : c.method ∈ lookupNames) (hn : ¬c.Names hide)
    (hv : ¬c.NamesVersion hide) : pm (D.without hide) c = pm D c := by
  by_cases hs : ∃ s, c.Names s
  · obtain ⟨s, hs⟩ := hs
    have hne : s ≠ hide := fun e => hn (e ▸ hs)
    rcases hpm.string c s h hs with ⟨e, he⟩ | hfind
    · rw [he, he]
    · exact hfind.without_other hne D
  · by_cases hw : ∃ s, c.NamesVersion s
    · obtain ⟨s, hw⟩ := hw
      have hne : s ≠ hide := fun e => hv (e ▸ hw)
      rcases hpm.versioned c s h hw with ⟨e, he⟩ | ⟨message, hfind⟩
      · rw [he, he]
      · exact hfind.without_other hne D
    · obtain ⟨e, he⟩ := hpm.nameless c h (fun s hn' => hs ⟨s, hn'⟩) fun s hv' => hw ⟨s, hv'⟩
      rw [he, he]

/-- **A hooked call gives what the unhooked one gives without the helper just when it is covered.** -/
theorem hookedCall_unseen_iff (hpm : Documented pm) (hide : Text) (D : PackageDb π name)
    (c : Call α) (hc : c.method ∈ filteringNames ++ lookupNames) (passes : ℕ) :
    hookedCall hide c passes (pm D c) = pm (D.without hide) c ↔ Covered pm hide D c := by
  rcases List.mem_append.mp hc with h | h
  · exact listing_unseen_iff hpm h passes
  · by_cases hn : c.Names hide
    · exact named_unseen_iff hpm h hn passes
    · by_cases hv : c.NamesVersion hide
      · exact version_unseen_iff hpm h hv passes
      · rw [hookedCall_lookup_other h hn, other_unseen hpm h hn hv]
        exact iff_of_true rfl ⟨fun hf => absurd h (not_lookup_of_filtering hf),
          fun _ hn' => absurd hn' hn, fun _ hv' => absurd hv' hv⟩

end Documented

/-! ## A package manager of packages that are nothing but their names -/

def stockLookup (D : PackageDb Text id) (target message : Text) : Outcome Unit Unit :=
  foundOr message ((D.lookup target).bind fun p => some (.packageInfo (some p) ()))

def stockFind (D : PackageDb Text id) : Arg Unit → Outcome Unit Unit
  | .string s => stockLookup D s s
  | .versionedPackage s _ => stockLookup D s ("VersionedPackage[".toList ++ s)
  | .other _ => .error (.other ())

def stockPm (D : PackageDb Text id) (c : Call Unit) : Outcome Unit Unit :=
  match c.args with
  | [] => .error (.other ())
  | arg :: _ =>
    if c.method ∈ filteringNames then
      .ok (.list ((D.packages.flatMap fun p => [.packageInfo (some p) ()]).insertionSort
        fun _ _ => True))
    else stockFind D arg

theorem stockPm_lookup {c : Call Unit} {arg : Arg Unit} {rest : List (Arg Unit)}
    (h : c.method ∈ lookupNames) (hargs : c.args = arg :: rest) (D : PackageDb Text id) :
    stockPm D c = stockFind D arg := by
  unfold stockPm
  rw [hargs]
  exact if_neg fun hf => not_lookup_of_filtering hf h

theorem stockPm_documented : Documented stockPm where
  listing := by
    rintro ⟨method, args⟩ h
    cases args with
    | nil => exact .inl ⟨.other (), fun _ => rfl⟩
    | cons arg args =>
      refine .inr ⟨fun p => [.packageInfo (some p) ()], fun _ _ => True, inferInstance,
        ⟨fun _ _ => .inl trivial⟩, ⟨fun _ _ _ _ _ => trivial⟩, ?_, fun D => if_pos h⟩
      intro p item hitem
      obtain rfl := List.mem_singleton.mp hitem
      exact .packageInfo ()
  string := by
    rintro ⟨method, args⟩ s h hn
    obtain ⟨rest, rfl⟩ := List.head?_eq_some_iff.mp hn
    exact .inr ⟨fun p => some (.packageInfo (some p) ()),
      fun D => stockPm_lookup (by exact h) rfl D⟩
  versioned := by
    rintro ⟨method, args⟩ s h ⟨version, hv⟩
    obtain ⟨rest, rfl⟩ := List.head?_eq_some_iff.mp hv
    exact .inr ⟨_, fun p => some (.packageInfo (some p) ()),
      fun D => stockPm_lookup (by exact h) rfl D⟩
  nameless := by
    rintro ⟨method, args⟩ h hn hv
    refine ⟨.other (), fun D => ?_⟩
    match args with
    | [] => rfl
    | .string s :: _ => exact absurd rfl (hn s)
    | .versionedPackage s version :: _ => exact absurd ⟨version, rfl⟩ (hv s)
    | .other _ :: _ => exact stockPm_lookup (by exact h) rfl D

/-- The helper and one more package. -/
def twoPackages : PackageDb Text id where
  packages := ["com.android.settings".toList, ourPkg]
  names_nodup := by decide

def versionedCall : Call Unit :=
  ⟨"getPackageInfo".toList, [.versionedPackage ourPkg 1, .other ()]⟩

/-- A lookup by `VersionedPackage` tells the hooked app of the helper. -/
theorem versionedCall_sees_helper :
    Documented stockPm ∧ versionedCall.method ∈ filteringNames ++ lookupNames ∧
      hookedCall ourPkg versionedCall 0 (stockPm twoPackages versionedCall) ≠
        stockPm (twoPackages.without ourPkg) versionedCall := by
  refine ⟨stockPm_documented, by decide, fun h => ?_⟩
  have hcov : Covered stockPm ourPkg twoPackages versionedCall :=
    (version_unseen_iff stockPm_documented (by decide) ⟨1, rfl⟩ 0).mp h
  exact hcov.versioned (by decide) ⟨1, rfl⟩ _ rfl

theorem listing_unseen_stock :
    hookedCall ourPkg ⟨"getInstalledPackages".toList, [.other ()]⟩ 1
        (stockPm twoPackages ⟨"getInstalledPackages".toList, [.other ()]⟩) =
      stockPm (twoPackages.without ourPkg) ⟨"getInstalledPackages".toList, [.other ()]⟩ :=
  (hookedCall_unseen_iff stockPm_documented ourPkg twoPackages _ (by decide) 1).mpr
    ⟨fun _ => ⟨_, rfl⟩, fun h => absurd h (by decide), fun h => absurd h (by decide)⟩

end HeadlessAndroid.Hooks
