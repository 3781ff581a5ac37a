import HeadlessAndroid.Lib.Distinct
import HeadlessAndroid.Lib.TextLines
import HeadlessAndroid.ScopeToggle

/-!
# HeadlessAndroid.ScopeReport — what GET /api/scope reports

The route joins the listing of `pm` with the scope rows of the module, takes a call that fails for an
empty list and counts the two lists that it has read.  A report is compared with the device that it
is about.
-/

namespace HeadlessAndroid.Scope

open Lib Lib.Js

structure Package where
  name : Text
  /-- Part of the system image, so that `pm list packages -3` leaves it out. -/
  isSystem : Bool
  deriving DecidableEq

structure Device where
  packages : List Package
  db : Db
  names_nodup : (packages.map (·.name)).Nodup
  names_line : ∀ p ∈ packages, IsLine p.name

def Device.names (d : Device) : List Text := d.packages.map (·.name)

/-- `pm list packages` with its options. -/
def Device.pmLines (d : Device) (options : List Text) : List Text :=
  (d.packages.filter fun p => !(options.contains "-3".toList && p.isSystem)).map fun p =>
    "package:".toList ++ p.name

/-- The result of `adb(["shell", "pm", "list", "packages", ...])`. -/
def pmResult (o : SqlOutcome) (d : Device) (options : List Text) : AdbResult :=
  match o with
  | .ran => adbClose (some 0) false (unlines (d.pmLines options)) []
  | .exited code stdout stderr => adbClose (some code) false stdout stderr
  | .killed _ stdout stderr => adbClose none true stdout stderr

/-- How the three calls of the route end. -/
structure Outcomes where
  lookup : SqlOutcome := .ran
  rows : SqlOutcome := .ran
  listing : SqlOutcome := .ran

def deviceWorld (o : Outcomes) : Async.World Call.Answer Device
  | .dbExec .selectModule, d =>
    ((sqlite o.lookup d.db .selectModule).1, { d with db := (sqlite o.lookup d.db .selectModule).2 })
  | .dbExec s, d => ((sqlite o.rows d.db s).1, { d with db := (sqlite o.rows d.db s).2 })
  | .adb extra, d => (pmResult o.listing d (extra.drop 4), d)
  | .emuCommand _, d => (none, d)

/-! ## Reports -/

def isTrue : JsVal → Bool
  | .bool b => b
  | _ => false

/-- The entries of `apps`. -/
def entries (body : JsVal) : List JsVal :=
  match body.get "apps" with
  | .arr vs => vs
  | _ => []

/-- The report tells what is on the device. -/
structure TrueReport (d : Device) (body : JsVal) : Prop where
  entry_installed : ∀ v ∈ entries body,
    isTrue (v.get "installed") = true ↔ ∃ p ∈ d.names, v.get "pkg" = .str p
  row_listed : ∀ row ∈ d.db.scope, d.db.isOwn row.mid = true →
    ∃ v ∈ entries body, v.get "pkg" = .str row.pkg ∧ isTrue (v.get "scoped") = true
  count_scoped : (body.get "counts").get "scoped" =
    jsNat ((entries body).countP fun v => isTrue (v.get "scoped"))
  count_installed : (body.get "counts").get "installed" =
    jsNat ((entries body).countP fun v => isTrue (v.get "installed"))

/-- Every answer ok:true of the route is a true report. -/
def ReportsTruly (E : Engine) (d : Device) (query : JsVal) (o : Outcomes) : Prop :=
  ∀ reply ∈ ((list E query).run (deviceWorld o) d).sent,
    reply.body.get "ok" = .bool true → TrueReport d reply.body

/-- The listing names installed packages, each once; the query of the rows names every package that
has one, each once, and no package that is installed and not in the listing. -/
structure Tells (d : Device) (rows listing : AdbResult) : Prop where
  listing_true : ∀ p ∈ installedOf listing, p ∈ d.names
  listing_nodup : (installedOf listing).Nodup
  rows_all : ∀ row ∈ d.db.scope, d.db.isOwn row.mid = true → row.pkg ∈ scopedOf rows
  rows_nodup : (scopedOf rows).Nodup
  rows_listed : ∀ p ∈ scopedOf rows, p ∈ d.names → p ∈ installedOf listing

/-! ## The merged list -/

theorem mergeOne_eq (S : List Text) (installed : Bool) : mergeOne S installed = fun acc pkg =>
    insertNew AppRow.pkg acc ⟨pkg, !installed || S.contains pkg, installed⟩ := rfl

theorem nodup_mergeApps (S A : List Text) : ((mergeApps S A).map (·.pkg)).Nodup := by
  unfold mergeApps
  rw [mergeOne_eq, mergeOne_eq]
  exact nodup_foldl_insertNew S (nodup_foldl_insertNew A List.nodup_nil)

/-- The rows: the listing, and what is in the scope besides. -/
theorem mem_mergeApps {S A : List Text} {a : AppRow} : a ∈ mergeApps S A ↔
    a.pkg ∈ A ∧ a = ⟨a.pkg, S.contains a.pkg, true⟩ ∨
      a.pkg ∉ A ∧ a.pkg ∈ S ∧ a = ⟨a.pkg, true, false⟩ := by
  unfold mergeApps
  rw [mergeOne_eq, mergeOne_eq, mem_foldl_insertNew fun _ => rfl]
  have hA : ∀ b : AppRow, b ∈ A.foldl (fun acc pkg =>
      insertNew AppRow.pkg acc ⟨pkg, !true || S.contains pkg, true⟩) [] ↔
        b.pkg ∈ A ∧ b = ⟨b.pkg, S.contains b.pkg, true⟩ := by
    intro b
    rw [mem_foldl_insertNew fun _ => rfl]
    constructor
    · rintro (hb | ⟨p, hp, -, rfl⟩)
      · cases hb
      · exact ⟨hp, rfl⟩
    · rintro ⟨hp, hb⟩
      exact .inr ⟨b.pkg, hp, List.not_mem_nil, hb⟩
  have hkeys : ∀ p, p ∈ (A.foldl (fun acc pkg =>
      insertNew AppRow.pkg acc ⟨pkg, !true || S.contains pkg, true⟩) []).map AppRow.pkg ↔ p ∈ A := by
    intro p
    rw [List.mem_map]
    constructor
    · rintro ⟨b, hb, rfl⟩
      exact ((hA b).mp hb).1
    · intro hp
      exact ⟨_, (hA ⟨p, S.contains p, true⟩).mpr ⟨hp, rfl⟩, rfl⟩
  rw [hA]
  simp only [hkeys]
  constructor
  · rintro (h | ⟨p, hp, hno, rfl⟩)
    · exact .inl h
    · exact .inr ⟨hno, hp, rfl⟩
  · rintro (h | ⟨hno, hp, ha⟩)
    · exact .inl h
    · exact .inr ⟨a.pkg, hp, hno, ha⟩

theorem isInstalled_iff {S A : List Text} {a : AppRow} (ha : a ∈ mergeApps S A) :
    a.isInstalled = true ↔ a.pkg ∈ A := by
  rcases mem_mergeApps.mp ha with ⟨hp, he⟩ | ⟨hno, -, he⟩
  · rw [he]
    exact iff_of_true rfl hp
  · rw [he]
    exact iff_of_false Bool.false_ne_true hno

theorem isScoped_iff {S A : List Text} {a : AppRow} (ha : a ∈ mergeApps S A) :
    a.isScoped = true ↔ a.pkg ∈ S := by
  rcases mem_mergeApps.mp ha with ⟨hp, he⟩ | ⟨hno, hp, he⟩
  · rw [he]
    exact List.contains_iff_mem
  · rw [he]
    exact iff_of_true rfl hp

theorem pkg_mem_mergeApps {S A : List Text} {p : Text} :
    (∃ a ∈ mergeApps S A, a.pkg = p) ↔ p ∈ A ∨ p ∈ S := by
  constructor
  · rintro ⟨a, ha, rfl⟩
    rcases mem_mergeApps.mp ha with ⟨hp, -⟩ | ⟨-, hp, -⟩
    · exact .inl hp
    · exact .inr hp
  · intro hp
    by_cases hA : p ∈ A
    · exact ⟨⟨p, S.contains p, true⟩, mem_mergeApps.mpr (.inl ⟨hA, rfl⟩), rfl⟩
    · exact ⟨⟨p, true, false⟩, mem_mergeApps.mpr (.inr ⟨hA, hp.resolve_left hA, rfl⟩), rfl⟩

/-- A count of the lists is one of the rows just when the list has no package twice. -/
theorem countP_mergeApps {S A L : List Text} {f : AppRow → Bool}
    (hf : ∀ a ∈ mergeApps S A, f a = true ↔ a.pkg ∈ L) (hL : ∀ p ∈ L, p ∈ A ∨ p ∈ S) :
    L.length = (mergeApps S A).countP f ↔ L.Nodup := by
  have hd : (((mergeApps S A).filter f).map (·.pkg)).Nodup :=
    (nodup_mergeApps S A).sublist (List.filter_sublist.map _)
  have hmem : ∀ p, p ∈ ((mergeApps S A).filter f).map (·.pkg) ↔ p ∈ L := by
    intro p
    simp only [List.mem_map, List.mem_filter]
    constructor
    · rintro ⟨a, ⟨ha, hfa⟩, rfl⟩
      exact (hf a ha).mp hfa
    · intro hp
      obtain ⟨a, ha, rfl⟩ := pkg_mem_mergeApps.mpr (hL p hp)
      exact ⟨a, ⟨ha, (hf a ha).mpr hp⟩, rfl⟩
  rw [List.countP_eq_length_filter, ← List.length_map (fun a : AppRow => a.pkg)]
  exact length_eq_iff_nodup hd hmem

/-! ## The report and the answers of the calls -/

section Body

variable {mod : Mod} {S A : List Text} {includeSystem : Bool}

theorem json_pkg (a : AppRow) : a.json.get "pkg" = .str a.pkg := by
  simp [AppRow.json, jsObj, JsVal.get]

theorem json_scoped (a : AppRow) : a.json.get "scoped" = .bool a.isScoped := by
  simp [AppRow.json, jsObj, JsVal.get, List.lookup_cons]

theorem json_installed (a : AppRow) : a.json.get "installed" = .bool a.isInstalled := by
  simp [AppRow.json, jsObj, JsVal.get, List.lookup_cons]

theorem entries_listBody :
    entries (listBody mod S A includeSystem) = (mergeApps S A).map AppRow.json := by
  unfold entries
  rw [listBody_apps]

theorem counts_listBody : ((listBody mod S A includeSystem).get "counts").get "scoped" =
      jsNat S.length ∧
    ((listBody mod S A includeSystem).get "counts").get "installed" = jsNat A.length := by
  constructor <;> simp [listBody, jsObj, JsVal.get, List.lookup_cons]

theorem jsNat_inj {m n : ℕ} : jsNat m = jsNat n ↔ m = n := by
  simp [jsNat]

/-- **A report is true just when its two lists are**, whatever they were read from. -/
theorem trueReport_iff {d : Device} : TrueReport d (listBody mod S A includeSystem) ↔
    (∀ p ∈ A, p ∈ d.names) ∧ A.Nodup ∧
      (∀ row ∈ d.db.scope, d.db.isOwn row.mid = true → row.pkg ∈ S) ∧ S.Nodup ∧
      ∀ p ∈ S, p ∈ d.names → p ∈ A := by
  have hinst : (∀ v ∈ entries (listBody mod S A includeSystem),
      isTrue (v.get "installed") = true ↔ ∃ p ∈ d.names, v.get "pkg" = .str p) ↔
      ∀ a ∈ mergeApps S A, a.pkg ∈ A ↔ a.pkg ∈ d.names := by
    rw [entries_listBody]
    simp only [List.forall_mem_map, json_pkg, json_installed, isTrue, JsVal.str.injEq,
      exists_eq_right']
    exact forall₂_congr fun a ha => by rw [isInstalled_iff ha]
  have hrows : ∀ p, (∃ v ∈ entries (listBody mod S A includeSystem),
      v.get "pkg" = .str p ∧ isTrue (v.get "scoped") = true) ↔ p ∈ S := by
    intro p
    rw [entries_listBody]
    constructor
    · rintro ⟨v, hv, hpkg, hs⟩
      obtain ⟨a, ha, rfl⟩ := List.mem_map.mp hv
      rw [json_pkg] at hpkg
      cases hpkg
      rw [json_scoped] at hs
      exact (isScoped_iff ha).mp hs
    · intro hp
      obtain ⟨a, ha, rfl⟩ := pkg_mem_mergeApps.mpr (.inr hp : p ∈ A ∨ p ∈ S)
      refine ⟨a.json, List.mem_map_of_mem ha, json_pkg a, ?_⟩
      rw [json_scoped]
      exact (isScoped_iff ha).mpr hp
  have hcount : ∀ (f : JsVal → Bool), (entries (listBody mod S A includeSystem)).countP f =
      (mergeApps S A).countP fun a => f a.json := by
    intro f
    rw [entries_listBody, List.countP_map]
    rfl
  have hscoped : S.length = (mergeApps S A).countP (fun a => isTrue (a.json.get "scoped")) ↔
      S.Nodup :=
    countP_mergeApps (fun a ha => by rw [json_scoped]; exact isScoped_iff ha) fun p hp => .inr hp
  have hlisted : A.length = (mergeApps S A).countP (fun a => isTrue (a.json.get "installed")) ↔
      A.Nodup :=
    countP_mergeApps (fun a ha => by rw [json_installed]; exact isInstalled_iff ha) fun p hp => .inl hp
  constructor
  · intro h
    have hi := hinst.mp h.entry_installed
    refine ⟨fun p hp => ?_, ?_, fun row hr ho => ?_, ?_, fun p hp hn => ?_⟩
    · obtain ⟨a, ha, rfl⟩ := pkg_mem_mergeApps.mpr (.inl hp : p ∈ A ∨ p ∈ S)
      exact (hi a ha).mp hp
    · have hc := h.count_installed
      rw [counts_listBody.2, hcount, jsNat_inj] at hc
      exact hlisted.mp hc
    · exact (hrows row.pkg).mp (h.row_listed row hr ho)
    · have hc := h.count_scoped
      rw [counts_listBody.1, hcount, jsNat_inj] at hc
      exact hscoped.mp hc
    · obtain ⟨a, ha, rfl⟩ := pkg_mem_mergeApps.mpr (.inr hp : p ∈ A ∨ p ∈ S)
      exact (hi a ha).mpr hn
  · rintro ⟨hA, hAn, hall, hSn, hlist⟩
    refine ⟨hinst.mpr fun a ha => ⟨hA a.pkg, fun hn => ?_⟩, fun row hr ho =>
      (hrows row.pkg).mpr (hall row hr ho), ?_, ?_⟩
    · rcases pkg_mem_mergeApps.mp ⟨a, ha, rfl⟩ with hp | hp
      · exact hp
      · exact hlist a.pkg hp hn
    · rw [counts_listBody.1, hcount, jsNat_inj]
      exact hscoped.mpr hSn
    · rw [counts_listBody.2, hcount, jsNat_inj]
      exact hlisted.mpr hAn

end Body

/-- **What the route answers**, however its calls end. -/
theorem list_answer (E : Engine) (d : Device) (query : JsVal) (o : Outcomes) :
    ((list E query).run (deviceWorld o) d).sent =
      [⟨200, listReply query (sqlite o.lookup d.db .selectModule).1
        (fun t => (sqlite o.rows d.db (.selectScope t)).1) (pmResult o.listing d)⟩] := by
  have hlookup : deviceWorld o (.dbExec .selectModule) d =
      (some (sqlite o.lookup d.db .selectModule).1, d) := by
    show (some (sqlite o.lookup d.db .selectModule).1,
      { d with db := (sqlite o.lookup d.db .selectModule).2 }) = _
    rw [sqlite_lookup_state]
  have hrows : ∀ t, deviceWorld o (.dbExec (.selectScope t)) d =
      (some (sqlite o.rows d.db (.selectScope t)).1, d) := by
    intro t
    show (some (sqlite o.rows d.db (.selectScope t)).1,
      { d with db := (sqlite o.rows d.db (.selectScope t)).2 }) = _
    rw [sqlite_read_state]
  have hpm : ∀ options, deviceWorld o (.adb (["shell", "pm", "list", "packages"].map String.toList ++
      options)) d = (some (pmResult o.listing d options), d) := fun _ => rfl
  rw [list_run E query hlookup hrows hpm]

/-! ## When the calls succeed -/

/-- The packages of the module's scope rows. -/
def Db.ownPkgs (db : Db) : List Text := (db.scope.filter fun row => db.isOwn row.mid).map (·.pkg)

/-- Every package of the scope can be printed, has one row, and is listed if it is installed. -/
structure ScopedOnce (d : Device) (includeSystem : Bool) : Prop where
  line : ∀ p ∈ d.db.ownPkgs, IsLine p
  once : d.db.ownPkgs.Nodup
  seen : ∀ q ∈ d.packages, q.name ∈ d.db.ownPkgs → includeSystem = true ∨ q.isSystem = false

theorem trimmedLines_unlines {ls : List Text} (h : ∀ l ∈ ls, IsLine l) :
    trimmedLines (trim (unlines ls)) = ls := by
  by_cases hne : ls = []
  · subst hne
    rfl
  · have htrim : ls.map trim = ls := by
      conv => rhs; rw [← List.map_id ls]
      exact List.map_congr_left fun l hl => (h l hl).trim_eq
    unfold trimmedLines unlines
    rw [splitOn_trim_lines hne h, htrim]
    refine List.filter_eq_self.mpr fun l hl => ?_
    simpa using (h l hl).ne_nil

theorem isLine_of_mem_trimmedLines {t p : Text} (h : p ∈ trimmedLines t) : IsLine p := by
  obtain ⟨hp, hne⟩ := List.mem_filter.mp h
  obtain ⟨l, hl, rfl⟩ := List.mem_map.mp hp
  exact isLine_of_piece hl (by simpa using hne)

theorem dropPackage_package (p : Text) : dropPackage ("package:".toList ++ p) = p := by
  unfold dropPackage
  rw [if_pos (List.isPrefixOf_iff_prefix.mpr (List.prefix_append _ _))]
  exact List.drop_left' rfl

theorem isLine_package {p : Text} (h : IsLine p) : IsLine ("package:".toList ++ p) where
  ne_nil := List.append_ne_nil_of_right_ne_nil _ h.ne_nil
  one := by
    rw [List.mem_append, not_or]
    exact ⟨by decide, h.one⟩
  trim_eq := by
    refine trim_eq_self_iff.mpr ⟨fun c hc => ?_, fun c hc => ?_⟩
    · cases hc
      decide
    · rw [List.getLast?_append_of_ne_nil _ h.ne_nil] at hc
      exact (trim_eq_self_iff.mp h.trim_eq).2 c hc

/-- The names that `pm` lists. -/
def Device.listed (d : Device) (includeSystem : Bool) : List Text :=
  (d.packages.filter fun p => includeSystem || !p.isSystem).map (·.name)

theorem pmLines_options (d : Device) (includeSystem : Bool) :
    d.pmLines (pmOptions includeSystem) =
      (d.listed includeSystem).map fun p => "package:".toList ++ p := by
  unfold Device.pmLines Device.listed
  rw [List.map_map]
  have hf : ∀ p : Package, (!((pmOptions includeSystem).contains "-3".toList && p.isSystem)) =
      (includeSystem || !p.isSystem) := by
    intro p
    cases includeSystem
    · show (!(true && p.isSystem)) = (false || !p.isSystem)
      rw [Bool.true_and, Bool.false_or]
    · rfl
  simp only [hf]
  rfl

/-- **The listing is read back**, up to its order. -/
theorem installedOf_pmResult (d : Device) (includeSystem : Bool) :
    installedOf (pmResult .ran d (pmOptions includeSystem)) = jsSort (d.listed includeSystem) := by
  have hline : ∀ p ∈ d.listed includeSystem, IsLine p := by
    intro p hp
    obtain ⟨q, hq, rfl⟩ := List.mem_map.mp hp
    exact d.names_line q (List.mem_of_mem_filter hq)
  show jsSort ((((trim (unlines (d.pmLines (pmOptions includeSystem)))).splitOn '\n').map
    fun line => trim (dropPackage line)).filter fun s => !s.isEmpty) = _
  rw [pmLines_options]
  generalize d.listed includeSystem = names at hline
  congr 1
  by_cases hne : names = []
  · subst hne
    rfl
  · have hlines : ∀ l ∈ names.map fun p => "package:".toList ++ p, IsLine l := by
      intro l hl
      obtain ⟨p, hp, rfl⟩ := List.mem_map.mp hl
      exact isLine_package (hline p hp)
    unfold unlines
    rw [splitOn_trim_lines (by simpa using hne) hlines, List.map_map]
    have hread : names.map ((fun line => trim (dropPackage line)) ∘ fun p => "package:".toList ++ p) =
        names := by
      conv => rhs; rw [← List.map_id names]
      refine List.map_congr_left fun p hp => ?_
      show trim (dropPackage ("package:".toList ++ p)) = p
      rw [dropPackage_package]
      exact (hline p hp).trim_eq
    rw [hread]
    refine List.filter_eq_self.mpr fun p hp => ?_
    simpa using (hline p hp).ne_nil

/-- The text of the mid that the route asks with. -/
theorem modOfResult_ran {db : Db} {m : ℤ} (hm : db.moduleMid = some m) (hbits : |m| ≤ 2 ^ 53) :
    ∃ mod, modOfResult (sqlite .ran db .selectModule).1 = some mod ∧ mod.mid.toText = intText m :=
  Option.map_eq_some_iff.mp (midRead_ran (e := ⟨.enable .null, .ran, .ran⟩) hm hbits rfl)

/-- What the query of the rows prints, for the mid of the module. -/
theorem scopedOf_rows {db : Db} {m : ℤ} (hm : db.moduleMid = some m) (hbits : |m| ≤ 2 ^ 53) :
    scopedOf (sqlite .ran db (.selectScope (intText m))).1 =
      trimmedLines (trim (unlines db.ownPkgs)) := by
  have hnum := sqlNumber_intText (hbits.trans_lt (by norm_num))
  have hrows : db.rows (.selectScope (intText m)) = db.ownPkgs := by
    have hown : ∀ row : ScopeRow, db.isOwn row.mid = decide (sqlNumber (intText m) = some row.mid) := by
      intro row
      rw [hnum]
      simp [Db.isOwn, hm, eq_comm]
    unfold Db.rows Db.ownPkgs
    simp only [hown]
  have hafter : db.after (.selectScope (intText m)) = some db := by
    simp only [Db.after, hnum, Option.map_some]
  unfold sqlite
  rw [hafter, hrows]
  rfl

/-- **Where the calls succeed**, what they answer is true just when every package is scoped once and
in sight. -/
theorem tells_iff {d : Device} {m : ℤ} {includeSystem : Bool} (hm : d.db.moduleMid = some m)
    (hbits : |m| ≤ 2 ^ 53) :
    Tells d (sqlite .ran d.db (.selectScope (intText m))).1
        (pmResult .ran d (pmOptions includeSystem)) ↔ ScopedOnce d includeSystem := by
  have hlisted : ∀ p, p ∈ installedOf (pmResult .ran d (pmOptions includeSystem)) ↔
      p ∈ d.listed includeSystem := by
    intro p
    rw [installedOf_pmResult]
    exact (List.mergeSort_perm _ _).mem_iff
  have hnodup : (installedOf (pmResult .ran d (pmOptions includeSystem))).Nodup := by
    rw [installedOf_pmResult]
    refine (List.mergeSort_perm _ _).nodup_iff.mpr ?_
    exact d.names_nodup.sublist (List.filter_sublist.map _)
  have hnames : ∀ p ∈ d.listed includeSystem, p ∈ d.names := fun p hp =>
    (List.filter_sublist.map _).subset hp
  have hin : ∀ q ∈ d.packages, q.name ∈ d.listed includeSystem ↔
      includeSystem = true ∨ q.isSystem = false := by
    intro q hq
    have hflag : ((includeSystem || !q.isSystem) = true) ↔ includeSystem = true ∨ q.isSystem = false := by
      simp
    rw [← hflag]
    constructor
    · intro h
      obtain ⟨q', hq', he⟩ := List.mem_map.mp h
      obtain ⟨hq'm, hf⟩ := List.mem_filter.mp hq'
      rwa [List.inj_on_of_nodup_map d.names_nodup hq'm hq he] at hf
    · exact fun h => List.mem_map_of_mem (List.mem_filter.mpr ⟨hq, h⟩)
  have hrow : ∀ p, p ∈ d.db.ownPkgs ↔
      ∃ row ∈ d.db.scope, d.db.isOwn row.mid = true ∧ row.pkg = p := by
    intro p
    simp [Db.ownPkgs, and_assoc]
  constructor
  · intro h
    have hline : ∀ p ∈ d.db.ownPkgs, IsLine p := by
      intro p hp
      obtain ⟨row, hr, ho, rfl⟩ := (hrow p).mp hp
      have hp' := h.rows_all row hr ho
      rw [scopedOf_rows hm hbits] at hp'
      exact isLine_of_mem_trimmedLines hp'
    have hscoped := scopedOf_rows hm hbits
    rw [trimmedLines_unlines hline] at hscoped
    have honce := h.rows_nodup
    have hseen := h.rows_listed
    rw [hscoped] at honce hseen
    refine ⟨hline, honce, fun q hq hp => ?_⟩
    rw [← hin q hq, ← hlisted]
    exact hseen q.name hp (List.mem_map_of_mem hq)
  · intro h
    have hscoped := scopedOf_rows hm hbits
    rw [trimmedLines_unlines h.line] at hscoped
    refine ⟨fun p hp => hnames p ((hlisted p).mp hp), hnodup, fun row hr ho => ?_, ?_, ?_⟩
    · rw [hscoped]
      exact (hrow row.pkg).mpr ⟨row, hr, ho, rfl⟩
    · rw [hscoped]
      exact h.once
    · rw [hscoped]
      intro p hp hn
      obtain ⟨q, hq, rfl⟩ := List.mem_map.mp hn
      exact (hlisted q.name).mpr ((hin q hq).mpr (h.seen q hq hp))

/-- **An answer ok:true is true just when what the calls answered is.** -/
theorem reportsTruly_iff {E : Engine} {d : Device} {query : JsVal} {o : Outcomes} :
    ReportsTruly E d query o ↔
      ∀ mod, modOfResult (sqlite o.lookup d.db .selectModule).1 = some mod →
        Tells d (sqlite o.rows d.db (.selectScope mod.mid.toText)).1
          (pmResult o.listing d (pmOptions (isTrueText (query.get "system")))) := by
  unfold ReportsTruly
  rw [list_answer]
  unfold listReply
  cases hm : modOfResult (sqlite o.lookup d.db .selectModule).1 with
  | none =>
    refine iff_of_true (fun reply hr hok => ?_) fun mod h => by cases h
    rw [List.mem_singleton.mp hr] at hok
    cases hok
  | some mod =>
    simp only [List.mem_singleton, forall_eq, Option.some.injEq, forall_eq']
    have hok : ∀ S A sys, (listBody mod S A sys).get "ok" = .bool true := fun _ _ _ => rfl
    rw [trueReport_iff]
    constructor
    · intro h
      obtain ⟨h₁, h₂, h₃, h₄, h₅⟩ := h (hok _ _ _)
      exact ⟨h₁, h₂, h₃, h₄, h₅⟩
    · exact fun h _ => ⟨h.listing_true, h.listing_nodup, h.rows_all, h.rows_nodup, h.rows_listed⟩

theorem reportsTruly_ran {E : Engine} {d : Device} {query : JsVal} (hfit : MidFits d.db) :
    ReportsTruly E d query {} ↔ ScopedOnce d (isTrueText (query.get "system")) := by
  obtain ⟨m, hm, hbits⟩ := hfit
  obtain ⟨mod, hmod, ht⟩ := modOfResult_ran hm hbits
  rw [reportsTruly_iff, ← tells_iff hm hbits, ← ht]
  constructor
  · exact fun h => h mod hmod
  · intro h mod' hmod'
    have heq : some mod = some mod' := hmod.symm.trans hmod'
    cases heq
    exact h

/-- **The report of `GET /`.**  However its calls end, an answer ok:true is true just when what they
answered is.  Where they succeed, and the mid of the module fits, that comes to the packages of the
scope: none has rows of two users, and none is a system app that the listing leaves out. -/
theorem report_true_iff (E : Engine) (d : Device) (query : JsVal) (o : Outcomes) :
    (ReportsTruly E d query o ↔
      ∀ mod, modOfResult (sqlite o.lookup d.db .selectModule).1 = some mod →
        Tells d (sqlite o.rows d.db (.selectScope mod.mid.toText)).1
          (pmResult o.listing d (pmOptions (isTrueText (query.get "system"))))) ∧
    (o = {} → MidFits d.db →
      (ReportsTruly E d query o ↔ ScopedOnce d (isTrueText (query.get "system")))) := by
  refine ⟨reportsTruly_iff, ?_⟩
  rintro rfl hfit
  exact reportsTruly_ran hfit

/-- A system app in the scope of the module, for one user or for two. -/
def chromeDevice (users : List ℤ) (h : users.Nodup) : Device where
  packages := [⟨"com.android.chrome".toList, true⟩]
  db := {
    __ := oneModule
    scope := users.map fun user => ⟨1, "com.android.chrome".toList, user⟩
    scope_nodup := h.map fun _ _ he => (ScopeRow.mk.inj he).2.2 }
  names_nodup := by decide
  names_line := by
    intro p hp
    rw [List.mem_singleton.mp hp]
    exact ⟨by decide, by decide, by decide⟩

/-- Without `system=true` the installed app is shown as not installed; with it, its two rows count
for two of one app. -/
theorem report_false :
    ¬ReportsTruly flatEngine (chromeDevice [0] (by decide)) (jsObj []) {} ∧
      ¬ReportsTruly flatEngine (chromeDevice [0, 10] (by decide))
        (jsObj [("system", .str "true".toList)]) {} := by
  have hfit : ∀ users h, MidFits (chromeDevice users h).db := fun _ _ => ⟨1, rfl, by norm_num⟩
  constructor
  · intro h
    rcases ((reportsTruly_ran (hfit _ _)).mp h).seen _ List.mem_cons_self (by decide) with hs | hs
    · exact absurd hs (by decide)
    · cases hs
  · intro h
    exact absurd ((reportsTruly_ran (hfit _ _)).mp h).once (by decide)

end HeadlessAndroid.Scope
