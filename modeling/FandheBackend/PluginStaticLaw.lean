import FandheBackend.HttpRequestGrammar
import FandheBackend.PluginHeaders
import FandheBackend.PluginStatic

set_option autoImplicit false

namespace FandheBackend.PluginStatic
open StdBytes HttpRequestHead HttpRequestGrammar HttpResponse ExceptChecks FileTree Utf8Text

structure SafeName (name : Bytes) : Prop where
  text : IsText name
  ne_nil : name ≠ []
  no_dot : name.head? ≠ some 46
  no_colon : 58 ∉ name

/-- The root itself, or what safe names lead to from there. -/
def Below (root location : List Bytes) : Prop :=
  ∃ names, location = root ++ names ∧ ∀ name ∈ names, SafeName name

section Resolution

theorem isSafeSegmentRelaxed_iff {name : Bytes} :
    (!fromUtf8IsErr name && isSafeSegmentRelaxed name) = true ↔ SafeName name := by
  have hdot : name.head? ≠ some 46 → name ≠ ascii "." ∧ name ≠ ascii ".." := by
    rintro h
    constructor <;> rintro rfl <;> exact h rfl
  rw [Bool.and_eq_true, Bool.not_eq_true', fromUtf8IsErr_eq_false]
  simp only [isSafeSegmentRelaxed, Bool.and_eq_true, Bool.not_eq_true', bne_iff_ne,
    List.isEmpty_eq_false_iff, List.contains_eq_mem, decide_eq_false_iff_not]
  constructor
  · rintro ⟨htext, ⟨⟨⟨hne, -⟩, -⟩, hhead⟩, hcolon⟩
    exact ⟨htext, hne, hhead, hcolon⟩
  · rintro ⟨htext, hne, hhead, hcolon⟩
    exact ⟨htext, ⟨⟨⟨hne, (hdot hhead).1⟩, (hdot hhead).2⟩, hhead⟩, hcolon⟩

theorem resolvedPathIsSafe_iff {root resolved : List Bytes} :
    resolvedPathIsSafe root resolved = true ↔ Below root resolved := by
  rw [resolvedPathIsSafe, Bool.and_eq_true, List.isPrefixOf_iff_prefix, List.all_eq_true]
  constructor
  · rintro ⟨⟨names, rfl⟩, hnames⟩
    rw [List.drop_left] at hnames
    exact ⟨names, rfl, fun name hname => isSafeSegmentRelaxed_iff.mp (hnames name hname)⟩
  · rintro ⟨names, rfl, hnames⟩
    refine ⟨List.prefix_append root names, ?_⟩
    rw [List.drop_left]
    exact fun name hname => isSafeSegmentRelaxed_iff.mpr (hnames name hname)

theorem canonicalize_absolute {fs : FileSystem} {components : List (Component Bytes)}
    {location : List Bytes} :
    canonicalize fs ⟨true, components⟩ = some location ↔
      Resolves fs.tree [] components location := by
  rw [canonicalize, if_neg (by simp), resolve_eq_some_iff]
  rfl

theorem canonicalizeSafe_eq_some_iff {fs : FileSystem} {root location : List Bytes}
    {components : List (Component Bytes)} :
    canonicalizeSafe fs root ⟨true, components⟩ = some location ↔
      Resolves fs.tree [] components location ∧ Below root location := by
  simp only [canonicalizeSafe, bind, pure, Option.bind_eq_some_iff, Option.guard_eq_some',
    canonicalize_absolute, Option.some.injEq]
  constructor
  · rintro ⟨canonical, hcanonical, -, -, -, hsafe, rfl⟩
    exact ⟨hcanonical, resolvedPathIsSafe_iff.mp hsafe⟩
  · rintro ⟨hcanonical, hbelow⟩
    have hsafe := resolvedPathIsSafe_iff.mpr hbelow
    exact ⟨location, hcanonical, (), (Bool.and_eq_true_iff.mp hsafe).1, (), hsafe, rfl⟩

theorem metadata_real {fs : FileSystem} {location : List Bytes} (h : Real fs.tree location) :
    metadata fs (toPath location) = fs.tree.node location := by
  have hcanonical : canonicalize fs (toPath location) = some location :=
    canonicalize_absolute.mpr h.resolves
  rw [metadata, hcanonical, Option.bind_some]

theorem componentOf_safe {segment : Bytes} (h : isSafeSegment segment = true) :
    componentOf segment = .normal segment := by
  simp only [isSafeSegment, Bool.and_eq_true, bne_iff_ne] at h
  obtain ⟨⟨⟨⟨⟨⟨-, hdot⟩, hdots⟩, -⟩, -⟩, -⟩, -⟩ := h
  rw [componentOf, if_neg hdot, if_neg hdots]

theorem foldl_push {segments : List Bytes} (h : ∀ s ∈ segments, isSafeSegment s = true)
    (path : PathBuf) :
    segments.foldl push path = ⟨path.absolute, path.components ++ segments.map .normal⟩ := by
  induction segments generalizing path with
  | nil => simp
  | cons segment segments ih =>
    obtain ⟨hsegment, hsegments⟩ := List.forall_mem_cons.mp h
    rw [List.foldl_cons, ih hsegments, push, componentOf_safe hsegment]
    simp

def Indexed (fs : FileSystem) (root segments location : List Bytes) : Prop :=
  ∃ dir, Resolves fs.tree [] ((root ++ segments).map .normal) dir ∧
    fs.tree.node dir = some .dir ∧ Below root dir ∧
    Resolves fs.tree dir [.normal (ascii "index.html")] location

theorem canonicalizeSafe_index {fs : FileSystem} {root dir location : List Bytes}
    (hreal : Real fs.tree dir) :
    canonicalizeSafe fs root (push (toPath dir) (ascii "index.html")) = some location ↔
      Resolves fs.tree dir [.normal (ascii "index.html")] location ∧ Below root location := by
  have hindex : push (toPath dir) (ascii "index.html") =
      ⟨true, dir.map .normal ++ [.normal (ascii "index.html")]⟩ := rfl
  rw [hindex, canonicalizeSafe_eq_some_iff, resolves_append]
  constructor
  · rintro ⟨⟨mid, hmid, hlast⟩, hbelow⟩
    rw [hreal.resolves.unique hmid]
    exact ⟨hlast, hbelow⟩
  · rintro ⟨hlast, hbelow⟩
    exact ⟨⟨dir, hreal.resolves, hlast⟩, hbelow⟩

theorem node_eq_dir {node : Node Bytes Bytes} (h : node.isDir = true) : node = .dir := by
  cases node with
  | dir => rfl
  | file | link | other => cases h

theorem node_eq_file {node : Node Bytes Bytes} (h : isFile node = true) :
    ∃ content, node = .file content := by
  cases node with
  | file content => exact ⟨content, rfl⟩
  | dir | link | other => cases h

theorem readWithin_eq_some_iff {fs : FileSystem} {location : List Bytes}
    (hreal : Real fs.tree location) {maxFileBytes : ℕ} {bytes : Bytes} :
    readWithin fs maxFileBytes (toPath location) = some bytes ↔
      fs.tree.node location = some (.file bytes) ∧ bytes.length ≤ maxFileBytes := by
  simp only [readWithin, read, metadata_real hreal, bind, pure, Option.bind_eq_some_iff,
    Option.guard_eq_some', Option.some.injEq]
  constructor
  · rintro ⟨node, hnode, -, hchecked, read, hread, -, hsmall, rfl⟩
    obtain ⟨content, rfl⟩ := node_eq_file (Bool.and_eq_true_iff.mp hchecked).1
    rw [hnode] at hread ⊢
    cases hread
    exact ⟨rfl, hsmall⟩
  · rintro ⟨hnode, hsmall⟩
    refine ⟨.file bytes, hnode, (), ?_, bytes, ?_, (), hsmall, rfl⟩
    · exact decide_eq_true hsmall
    · rw [hnode]

theorem resolveAndRead_eq_some_iff {fs : FileSystem} {root segments : List Bytes}
    (hsafe : ∀ s ∈ segments, isSafeSegment s = true) {dirRequest : Bool} {maxFileBytes : ℕ}
    {mimeOverrides : List (Bytes × ContentType)} {bytes : Bytes} {contentType : ContentType} :
    resolveAndRead fs root segments dirRequest maxFileBytes mimeOverrides =
        some (bytes, contentType) ↔
      ∃ location, (dirRequest = false ∧
            Resolves fs.tree [] ((root ++ segments).map .normal) location ∨
          Indexed fs root segments location) ∧
        fs.tree.node location = some (.file bytes) ∧ bytes.length ≤ maxFileBytes ∧
        Below root location ∧
        contentType = contentTypeForExtension (fileName location) mimeOverrides := by
  have hcandidate : segments.foldl push (toPath root) =
      ⟨true, (root ++ segments).map .normal⟩ := by
    rw [foldl_push hsafe, List.map_append]
    rfl
  simp only [resolveAndRead, hcandidate, bind, pure, Option.bind_eq_some_iff,
    Option.guard_eq_some', canonicalizeSafe_eq_some_iff, Option.some.injEq, Prod.mk.injEq]
  constructor
  · rintro ⟨canonical, ⟨hresolves, hbelow⟩, node, hnode, -, hrequest, final, hfinal, read, hread,
      rfl, rfl⟩
    have hreal : Real fs.tree canonical := hresolves.real real_top
    rw [metadata_real hreal] at hnode
    rw [finalPath] at hfinal
    split_ifs at hfinal with hdir hfile
    · obtain ⟨hindex, hfinalBelow⟩ := (canonicalizeSafe_index hreal).mp hfinal
      obtain ⟨hcontent, hsmall⟩ := (readWithin_eq_some_iff (hindex.real hreal)).mp hread
      have hcanonical : fs.tree.node canonical = some .dir := by rw [hnode, node_eq_dir hdir]
      exact ⟨final, .inr ⟨canonical, hresolves, hcanonical, hbelow, hindex⟩, hcontent, hsmall,
        hfinalBelow, rfl⟩
    · cases hfinal
      obtain ⟨hcontent, hsmall⟩ := (readWithin_eq_some_iff hreal).mp hread
      have hdirect : dirRequest = false := by simpa [hdir] using hrequest
      exact ⟨canonical, .inl ⟨hdirect, hresolves⟩, hcontent, hsmall, hbelow, rfl⟩
  · rintro ⟨location, hreached, hcontent, hsmall, hbelow, rfl⟩
    rcases hreached with ⟨rfl, hresolves⟩ | ⟨dir, hresolves, hdir, hdirBelow, hindex⟩
    · have hreal : Real fs.tree location := ⟨_, hcontent, rfl⟩
      refine ⟨location, ⟨hresolves, hbelow⟩, .file bytes, ?_, (), rfl, location, rfl, bytes, ?_,
        rfl, rfl⟩
      · rw [metadata_real hreal, hcontent]
      · exact (readWithin_eq_some_iff hreal).mpr ⟨hcontent, hsmall⟩
    · have hreal : Real fs.tree dir := ⟨_, hdir, rfl⟩
      refine ⟨dir, ⟨hresolves, hdirBelow⟩, .dir, ?_, (), ?_, location, ?_, bytes, ?_, rfl, rfl⟩
      · rw [metadata_real hreal, hdir]
      · simp [Node.isDir]
      · exact (canonicalizeSafe_index hreal).mpr ⟨hindex, hbelow⟩
      · exact (readWithin_eq_some_iff ⟨_, hcontent, rfl⟩).mpr ⟨hcontent, hsmall⟩

end Resolution

section Requests
variable {TypeId : Type} {E : TypeId → Type}

def IsGet (head : RequestHead E) : Prop := eqIgnoreAsciiCase head.method (ascii "GET") = true

/-- The path is the mount, or goes on with `tail` after the slash that ends the mount. -/
def UnderMount (mount path tail : Bytes) : Prop :=
  path = mount ∧ tail = [] ∨ path = (if mount = ascii "/" then [] else mount) ++ 47 :: tail

def endsInSlash (path : Bytes) : Bool := path.getLast? == some 47

/-- The segments below the mount; one slash may stand at the end. -/
def segmentsOf (tail : Bytes) : List Bytes :=
  if tail = [] then [] else (if endsInSlash tail then tail.dropLast else tail).splitOn 47

/-- A file of the right size in the right place, reached from the root by safe segments. -/
structure Servable (fs : FileSystem) (config : StaticFilesConfig) (tail : Bytes)
    (location : List Bytes) (content : Bytes) : Prop where
  safe : ∀ s ∈ segmentsOf tail, isSafeSegment s = true
  reached : (endsInSlash tail = false ∧
      Resolves fs.tree [] ((config.root ++ segmentsOf tail).map .normal) location) ∨
    Indexed fs config.root (segmentsOf tail) location
  file : fs.tree.node location = some (.file content)
  small : content.length ≤ config.maxFileBytes
  below : Below config.root location

theorem stripSlash_eq_some_iff {path rest : Bytes} :
    stripSlash path = some rest ↔ path = 47 :: rest := by
  unfold stripSlash
  split
  · simp
  · rename_i hne
    simp only [reduceCtorEq, false_iff]
    exact hne rest

theorem stripMount_eq_some_iff {path mount tail : Bytes} :
    stripMount path mount = some tail ↔ UnderMount mount path tail := by
  unfold stripMount UnderMount
  split_ifs with hroot hpath hpre
  · subst hroot
    rw [stripSlash_eq_some_iff, List.nil_append]
    constructor
    · exact .inr
    · rintro (⟨rfl, rfl⟩ | h)
      · rfl
      · exact h
  · subst hpath
    simp only [Option.some.injEq, true_and, List.self_eq_append_right, reduceCtorEq, or_false]
    exact eq_comm
  · obtain ⟨rest, rfl⟩ := List.isPrefixOf_iff_prefix.mp hpre
    rw [List.drop_left, stripSlash_eq_some_iff]
    simp only [List.append_cancel_left_eq, hpath, false_and, false_or]
  · constructor
    · intro h
      cases h
    · rintro (⟨rfl, -⟩ | rfl)
      · exact absurd rfl hpath
      · exact absurd (List.isPrefixOf_iff_prefix.mpr (List.prefix_append mount _)) hpre

theorem found_status (bytes : Bytes) (contentType : ContentType) :
    (found bytes contentType).status = 200 := by
  rw [found, tryAddHeader, PluginHeaders.withHeader_getD]
  rfl

theorem found_body (bytes : Bytes) (contentType : ContentType) :
    (found bytes contentType).body = bytes := by
  rw [found, tryAddHeader, PluginHeaders.withHeader_getD]
  rfl

theorem answer_eq (fs : FileSystem) (joined : Bool) (config : StaticFilesConfig)
    (segments : List Bytes) (dirRequest : Bool) :
    answer fs joined config segments dirRequest =
      if segments.all isSafeSegment && joined then
        (resolveAndRead fs config.root segments dirRequest config.maxFileBytes
          config.mimeOverrides).elim (miss config) fun read => some (found read.1 read.2)
      else miss config := by
  unfold answer
  cases segments.all isSafeSegment with
  | false => rfl
  | true =>
    cases joined with
    | false => rfl
    | true =>
      cases resolveAndRead fs config.root segments dirRequest config.maxFileBytes
        config.mimeOverrides <;> rfl

theorem tryHandleStatic_mount {fs : FileSystem} {joined : Bool} {head : RequestHead E}
    {config : StaticFilesConfig} (hget : IsGet head) {tail : Bytes}
    (htail : UnderMount config.mount head.path tail) :
    tryHandleStatic fs joined head config =
      answer fs joined config (segmentsOf tail) (endsInSlash tail) := by
  rw [tryHandleStatic, if_neg (by simpa [IsGet] using hget), stripMount_eq_some_iff.mpr htail]
  dsimp only
  rw [← endsInSlash]
  cases hslash : endsInSlash tail with
  | false =>
    have hsegments : (if tail.isEmpty then [] else tail.splitOn 47) = segmentsOf tail := by
      simp [segmentsOf, hslash]
    simp only [Bool.false_and, Bool.false_eq_true, if_false, hsegments]
  | true =>
    have hne : tail ≠ [] := by
      rintro rfl
      cases hslash
    have hsegments : segmentsOf tail = tail.dropLast.splitOn 47 := by
      simp [segmentsOf, hne, hslash]
    simp only [Bool.true_and, if_true]
    by_cases hempty : tail.dropLast = []
    · -- The slash alone leaves the empty segment, which is not safe.
      have hunsafe : (segmentsOf tail).all isSafeSegment = false := by
        rw [hsegments, hempty]
        rfl
      rw [if_pos (List.isEmpty_iff.mpr hempty), answer, if_pos hunsafe]
    · have hnotEmpty : tail.dropLast.isEmpty = false := List.isEmpty_eq_false_iff.mpr hempty
      simp only [hnotEmpty, Bool.false_eq_true, if_false, hsegments]

theorem tryHandleStatic_eq_some {fs : FileSystem} {joined : Bool} {head : RequestHead E}
    {config : StaticFilesConfig} {r : Response}
    (h : tryHandleStatic fs joined head config = some r) :
    IsGet head ∧ ∃ tail, UnderMount config.mount head.path tail := by
  by_cases hget : eqIgnoreAsciiCase head.method (ascii "GET") = false
  · rw [tryHandleStatic, if_pos hget] at h
    cases h
  · rw [tryHandleStatic, if_neg hget] at h
    refine ⟨(Bool.not_eq_false _).mp hget, ?_⟩
    cases hmount : stripMount head.path config.mount with
    | none => simp [hmount] at h
    | some tail => exact ⟨tail, stripMount_eq_some_iff.mp hmount⟩

theorem miss_status {config : StaticFilesConfig} {r : Response} (h : miss config = some r) :
    r.status = 404 := by
  unfold miss at h
  split_ifs at h
  cases h
  rfl

theorem answer_served_iff {fs : FileSystem} {joined : Bool} {config : StaticFilesConfig}
    {segments : List Bytes} {dirRequest : Bool} {content : Bytes} :
    (∃ r, answer fs joined config segments dirRequest = some r ∧ r.status = 200 ∧
        r.body = content) ↔
      joined = true ∧ (∀ s ∈ segments, isSafeSegment s = true) ∧
        ∃ contentType, resolveAndRead fs config.root segments dirRequest config.maxFileBytes
          config.mimeOverrides = some (content, contentType) := by
  rw [answer_eq]
  constructor
  · rintro ⟨r, hr, hstatus, rfl⟩
    have hmissed : miss config ≠ some r := fun hmiss =>
      absurd (hstatus.symm.trans (miss_status hmiss)) (by decide)
    split_ifs at hr with hchecked
    · rw [Bool.and_eq_true, List.all_eq_true] at hchecked
      cases hread : resolveAndRead fs config.root segments dirRequest config.maxFileBytes
          config.mimeOverrides with
      | none => exact absurd (by simpa [hread] using hr) hmissed
      | some read =>
        obtain ⟨bytes, contentType⟩ := read
        obtain rfl : found bytes contentType = r := by simpa [hread] using hr
        exact ⟨hchecked.2, hchecked.1, contentType, by rw [found_body]⟩
    · exact absurd hr hmissed
  · rintro ⟨rfl, hsafe, contentType, hread⟩
    rw [if_pos (by simpa using hsafe), hread]
    exact ⟨found content contentType, rfl, found_status _ _, found_body _ _⟩

theorem tryHandleStatic_served_iff {fs : FileSystem} {joined : Bool} {head : RequestHead E}
    {config : StaticFilesConfig} {content : Bytes} :
    (∃ r, tryHandleStatic fs joined head config = some r ∧ r.status = 200 ∧ r.body = content) ↔
      joined = true ∧ IsGet head ∧ ∃ tail location, UnderMount config.mount head.path tail ∧
        Servable fs config tail location content := by
  constructor
  · rintro ⟨r, hr, hserved⟩
    obtain ⟨hget, tail, htail⟩ := tryHandleStatic_eq_some hr
    rw [tryHandleStatic_mount hget htail] at hr
    obtain ⟨hjoined, hsafe, contentType, hread⟩ := answer_served_iff.mp ⟨r, hr, hserved⟩
    obtain ⟨location, hreached, hfile, hsmall, hbelow, -⟩ :=
      (resolveAndRead_eq_some_iff hsafe).mp hread
    exact ⟨hjoined, hget, tail, location, htail, hsafe, hreached, hfile, hsmall, hbelow⟩
  · rintro ⟨hjoined, hget, tail, location, htail, h⟩
    rw [tryHandleStatic_mount hget htail]
    exact answer_served_iff.mpr ⟨hjoined, h.safe, _, (resolveAndRead_eq_some_iff h.safe).mpr
      ⟨location, h.reached, h.file, h.small, h.below, rfl⟩⟩

def MountGet (config : StaticFilesConfig) (head : RequestHead E) : Prop :=
  IsGet head ∧ ∃ tail, UnderMount config.mount head.path tail

def Served (fs : FileSystem) (joined : Bool) (head : RequestHead E) (config : StaticFilesConfig)
    (content : Bytes) : Prop :=
  ∃ r, tryHandleStatic fs joined head config = some r ∧ r.status = 200 ∧ r.body = content

theorem not_served {fs : FileSystem} {joined : Bool} {head : RequestHead E}
    {config : StaticFilesConfig} (hmount : MountGet config head)
    (h : ∀ content, ¬ Served fs joined head config content) :
    tryHandleStatic fs joined head config = miss config := by
  obtain ⟨hget, tail, htail⟩ := hmount
  simp only [Served, tryHandleStatic_mount hget htail] at h ⊢
  rw [answer_eq] at h ⊢
  split_ifs at h ⊢ with hchecked
  · cases hread : resolveAndRead fs config.root (segmentsOf tail) (endsInSlash tail)
        config.maxFileBytes config.mimeOverrides with
    | none => rfl
    | some read =>
      exact absurd ⟨_, by rw [hread]; rfl, found_status _ _, found_body _ _⟩ (h read.1)
  · rfl

theorem UnderMount.eq_nil {mount path tail : Bytes} (h : UnderMount mount path tail)
    (hpath : endsInSlash path = true) (htail : endsInSlash tail = false) : tail = [] := by
  obtain ⟨-, rfl⟩ | rfl := h
  · rfl
  · obtain rfl | ⟨init, last, rfl⟩ := tail.eq_nil_or_concat'
    · rfl
    · rw [endsInSlash, List.getLast?_concat] at htail
      rw [endsInSlash, ← List.cons_append, ← List.append_assoc, List.getLast?_concat,
        htail] at hpath
      cases hpath

/-- While the root is a directory, a file is strictly below it, and a path that ends in a slash
names an index. -/
theorem Servable.strict {fs : FileSystem} {config : StaticFilesConfig} {path tail : Bytes}
    {location : List Bytes} {content : Bytes} (h : Servable fs config tail location content)
    (hroot : fs.tree.isDir config.root = true) (htail : UnderMount config.mount path tail) :
    location ≠ config.root ∧ (endsInSlash path = true →
      Indexed fs config.root (segmentsOf tail) location) := by
  have hne : location ≠ config.root := by
    rintro rfl
    rw [Tree.isDir, h.file] at hroot
    cases hroot
  refine ⟨hne, fun hpath => ?_⟩
  obtain ⟨hslash, hresolves⟩ | hindexed := h.reached
  · obtain rfl : tail = [] := htail.eq_nil hpath hslash
    have hself := (real_of_isDir hroot).resolves
    rw [segmentsOf, if_pos rfl, List.append_nil] at hresolves
    exact absurd (hresolves.unique hself) hne
  · exact hindexed

theorem canonicalize_real {fs : FileSystem} {path : PathBuf} {location : List Bytes}
    (h : canonicalize fs path = some location) : Real fs.tree location := by
  unfold canonicalize at h
  split_ifs at h
  refine (resolve_eq_some_iff.mp h).real ?_
  unfold start
  split_ifs
  · exact real_top
  · exact real_of_isDir fs.current_dir

theorem build_isDir {fs : FileSystem} {b : StaticFilesConfigBuilder} {config : StaticFilesConfig}
    (h : b.build fs = .ok config) : fs.tree.isDir config.root = true := by
  unfold StaticFilesConfigBuilder.build at h
  obtain ⟨mount, -, h⟩ := bind_eq_ok.mp h
  obtain ⟨root, hroot, h⟩ := bind_eq_ok.mp h
  obtain ⟨u, hdir, h⟩ := bind_eq_ok.mp h
  obtain ⟨overrides, -, h⟩ := bind_eq_ok.mp h
  cases h
  rw [rejectIf_eq_ok, metadata_real (canonicalize_real (orError_eq_ok.mp hroot)),
    Bool.not_eq_false] at hdir
  exact hdir

/-- What is served, and that everything else under the mount gets one answer. -/
theorem confinement_law (fs : FileSystem) (joined : Bool) (head : RequestHead E)
    (config : StaticFilesConfig) :
    (∀ content, Served fs joined head config content ↔
      joined = true ∧ IsGet head ∧ ∃ tail location, UnderMount config.mount head.path tail ∧
        Servable fs config tail location content) ∧
    (fs.tree.isDir config.root = true → ∀ tail location content,
      UnderMount config.mount head.path tail → Servable fs config tail location content →
      location ≠ config.root ∧ (endsInSlash head.path = true →
        Indexed fs config.root (segmentsOf tail) location)) ∧
    (∀ b : StaticFilesConfigBuilder, b.build fs = .ok config →
      fs.tree.isDir config.root = true) ∧
    (MountGet config head → (∀ content, ¬ Served fs joined head config content) →
      tryHandleStatic fs joined head config = miss config ∧
      ∀ (fs' : FileSystem) (joined' : Bool) (head' : RequestHead E), MountGet config head' →
        (∀ content, ¬ Served fs' joined' head' config content) →
        tryHandleStatic fs' joined' head' config = tryHandleStatic fs joined head config) := by
  refine ⟨fun content => tryHandleStatic_served_iff, fun hroot tail location content htail h =>
    h.strict hroot htail, fun b => build_isDir, fun hmount hnot => ?_⟩
  have hmiss := not_served hmount hnot
  refine ⟨hmiss, fun fs' joined' head' hmount' hnot' => ?_⟩
  rw [hmiss, not_served hmount' hnot']

end Requests

section Files

/-- `/srv` is the root. Its `pub` leads outside, to a directory whose index leads back. -/
def linkedTree : Tree Bytes Bytes where
  entries :=
    [([], .dir), ([ascii "srv"], .dir), ([ascii "srv", ascii "a.txt"], .file (ascii "A")),
      ([ascii "srv", ascii "pub"], .link ⟨true, [.normal (ascii "out")]⟩),
      ([ascii "srv", [255]], .file (ascii "B")),
      ([ascii "srv", ascii "b"], .link ⟨false, [.normal [255]]⟩), ([ascii "out"], .dir),
      ([ascii "out", ascii "index.html"],
        .link ⟨false, [.parentDir, .normal (ascii "srv"), .normal (ascii "a.txt")]⟩)]
  top_dir := by decide
  parent_dir := parents_of_all (by decide)

def linkedFiles : FileSystem := ⟨linkedTree, [], by decide⟩

def indexedFiles : FileSystem where
  tree :=
    { entries :=
        [([], .dir), ([ascii "srv"], .dir), ([ascii "srv", ascii "a.txt"], .file (ascii "A")),
          ([ascii "srv", ascii "index.html"], .link ⟨false, [.normal (ascii "a.txt")]⟩)]
      top_dir := by decide
      parent_dir := parents_of_all (by decide) }
  currentDir := []
  current_dir := by decide

def replacedFiles : FileSystem where
  tree :=
    { entries := [([], .dir), ([ascii "srv"], .file (ascii "C"))]
      top_dir := by decide
      parent_dir := parents_of_all (by decide) }
  currentDir := []
  current_dir := by decide

def srvBuilder : StaticFilesConfigBuilder where
  mount := ascii "/static"
  root := ⟨true, [.normal (ascii "srv")]⟩

def srvConfig : StaticFilesConfig where
  mount := ascii "/static"
  root := [ascii "srv"]
  maxFileBytes := defaultMaxFileBytes
  mimeOverrides := []
  fallthroughOnMiss := false

def requestHead (method path : Bytes) : RequestHead (fun _ : Unit => Unit) where
  buf := method ++ [32] ++ path ++ ascii " HTTP/1.1"
  methodRange := ⟨0, method.length⟩
  targetRange := ⟨method.length + 1, method.length + 1 + path.length⟩
  version := .http11
  headerRanges := []
  extensions := .new

theorem confinement_law_index :
    let head := requestHead (ascii "GET") (ascii "/static/")
    Served indexedFiles true head srvConfig (ascii "A") ∧
      (∃ location, Servable indexedFiles srvConfig [] location (ascii "A") ∧
        location ≠ srvConfig.root ∧ Indexed indexedFiles srvConfig.root [] location) ∧
      tryHandleStatic linkedFiles true (requestHead (ascii "GET") (ascii "/static/.."))
        srvConfig = tryHandleStatic indexedFiles false head srvConfig := by
  intro head
  have htail : UnderMount srvConfig.mount head.path [] := stripMount_eq_some_iff.mp (by decide)
  have hserved : Served indexedFiles true head srvConfig (ascii "A") :=
    ⟨found (ascii "A") ⟨ascii "text/plain; charset=utf-8", by decide⟩, by decide, by decide,
      by decide⟩
  obtain ⟨hiff, hstrict, hdir, -⟩ := confinement_law indexedFiles true head srvConfig
  obtain ⟨-, hget, tail, location, htail', hservable⟩ := (hiff _).mp hserved
  obtain rfl : tail = [] := Option.some.inj
    ((stripMount_eq_some_iff.mpr htail').symm.trans (stripMount_eq_some_iff.mpr htail))
  have hroot := hdir srvBuilder (by decide)
  obtain ⟨hne, hindexed⟩ := hstrict hroot [] location _ htail hservable
  refine ⟨hserved, ⟨location, hservable, hne, hindexed (by decide)⟩, ?_⟩
  obtain ⟨hlost, -, -, hmisses⟩ := confinement_law indexedFiles false head srvConfig
  have hdots : tryHandleStatic linkedFiles true
      (requestHead (ascii "GET") (ascii "/static/..")) srvConfig = some (Response.empty 404) := by
    decide
  refine (hmisses ⟨hget, [], htail⟩ (fun content h => ?_)).2 linkedFiles true _ ⟨?_,
    ascii "..", stripMount_eq_some_iff.mp (by decide)⟩ fun content h => ?_
  · exact absurd ((hlost content).mp h).1 (by decide)
  · unfold IsGet
    decide
  · obtain ⟨r, hr, hstatus, -⟩ := h
    obtain rfl : Response.empty 404 = r := Option.some.inj (hdots.symm.trans hr)
    exact absurd hstatus (by decide)

/-- A file below the root that the segments lead to, whatever directory its index is in and
however its names are encoded. -/
structure Present (fs : FileSystem) (config : StaticFilesConfig) (tail : Bytes)
    (location : List Bytes) (content : Bytes) : Prop where
  safe : ∀ s ∈ segmentsOf tail, isSafeSegment s = true
  reached : ∃ place, Resolves fs.tree [] ((config.root ++ segmentsOf tail).map .normal) place ∧
    (endsInSlash tail = false ∧ location = place ∨ fs.tree.node place = some .dir ∧
      Resolves fs.tree place [.normal (ascii "index.html")] location)
  file : fs.tree.node location = some (.file content)
  small : content.length ≤ config.maxFileBytes
  below : config.root <+: location ∧ location ≠ config.root
  names : ∀ name ∈ location.drop config.root.length, name.head? ≠ some 46 ∧ 58 ∉ name

theorem confinement_exceptions :
    srvBuilder.build linkedFiles = .ok srvConfig ∧
    (UnderMount srvConfig.mount (ascii "/static/pub") (ascii "pub") ∧
      Present linkedFiles srvConfig (ascii "pub") [ascii "srv", ascii "a.txt"] (ascii "A") ∧
      tryHandleStatic linkedFiles true (requestHead (ascii "GET") (ascii "/static/pub"))
        srvConfig = some (Response.empty 404)) ∧
    (UnderMount srvConfig.mount (ascii "/static/b") (ascii "b") ∧
      Present linkedFiles srvConfig (ascii "b") [ascii "srv", [255]] (ascii "B") ∧
      tryHandleStatic linkedFiles true (requestHead (ascii "GET") (ascii "/static/b"))
        srvConfig = some (Response.empty 404)) ∧
    ((requestHead (ascii "get") (ascii "/static/a.txt")).method ≠ ascii "GET" ∧
      Served linkedFiles true (requestHead (ascii "get") (ascii "/static/a.txt")) srvConfig
        (ascii "A")) ∧
    (replacedFiles.tree.node srvConfig.root = some (.file (ascii "C")) ∧
      Served replacedFiles true (requestHead (ascii "GET") (ascii "/static/")) srvConfig
        (ascii "C")) := by
  have hpub : Present linkedFiles srvConfig (ascii "pub") [ascii "srv", ascii "a.txt"]
      (ascii "A") := by
    refine ⟨by decide, ⟨[ascii "out"], ?_, .inr ⟨by decide, ?_⟩⟩, by decide, by decide,
      by decide, by decide⟩
    · exact resolves_of_components (by decide)
    · exact resolves_of_components (by decide)
  have hnamed : Present linkedFiles srvConfig (ascii "b") [ascii "srv", [255]] (ascii "B") := by
    refine ⟨by decide, ⟨[ascii "srv", [255]], ?_, .inl ⟨by decide, rfl⟩⟩, by decide, by decide,
      by decide, by decide⟩
    exact resolves_of_components (by decide)
  refine ⟨by decide, ⟨stripMount_eq_some_iff.mp (by decide), hpub, by decide⟩,
    ⟨stripMount_eq_some_iff.mp (by decide), hnamed, by decide⟩, ⟨by decide, ?_⟩,
    ⟨by decide, ?_⟩⟩
  · exact ⟨found (ascii "A") ⟨ascii "text/plain; charset=utf-8", by decide⟩, by decide,
      by decide, by decide⟩
  · exact ⟨found (ascii "C") defaultContentType, by decide, by decide, by decide⟩

end Files

end FandheBackend.PluginStatic
