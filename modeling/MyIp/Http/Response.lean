import MyIp.Foundations.Paths
import MyIp.Net.Str

/-! # The HTTP server

`generate_response` puts the name of the file together from the document root, the value of the
`Host` header and the URL. It refuses a URL with two dots in a row and looks at nothing else, so
that the `Host` header can lead out of the document root: `stays_in_root_iff`. The CGI program gets
the name on its command line, which `exec_with_pipe` splits at the spaces. -/

namespace MyIp.Http
open CText Paths Net
set_option autoImplicit false

/-- `http_private_data`, as far as the response depends on it. The document root comes from the
configuration file, as a C text. -/
structure HttpPrivateData where
  webRoot : Text
  phpCgi : Text
  webRoot_text : '\x00' ∉ webRoot

/-- What the server meets outside: the files, the programs and the statistics. -/
structure World where
  stat : Text → Option ℕ
  /-- The bytes of a file that can be opened. -/
  fopen : Text → Option Text
  /-- What `read` gives of the output of a program with these arguments and this environment, piece
  by piece, unless it fails. -/
  execvpe : List Text → List Text → Option (List Text)
  toJson : Text

/-- What is done with a path, or with the arguments of the CGI program. -/
inductive FileOp
  | stat (path : Text)
  | fopen (path : Text)
  | invokeCgi (bin : Text) (arguments : List Text)
  deriving DecidableEq

/-- The arguments behind those of `bin -e`. -/
def scriptArguments (bin : Text) (arguments : List Text) : List Text :=
  arguments.drop ((splitBy bin " ".toList).length + 1)

/-- The file that is meant. A CGI program takes the first argument behind its options for the script
and gives the others to it. -/
def FileOp.path : FileOp → Text
  | .stat path => path
  | .fopen path => path
  | .invokeCgi bin arguments => (scriptArguments bin arguments).headD []

/-! ## The request -/

/-- The URL and the value of the `Host` header, if the request is one. -/
def parseRequest (request : Text) : Option (Text × Option Text) :=
  match find "\r\n\r\n".toList request with
  | none => none
  | some endMarker =>
    let lines := splitBy (request.take endMarker) "\r\n".toList
    match lines with
    | [] => none
    | line :: _ =>
      match splitBy line " ".toList with
      | _ :: url :: _ :: _ =>
        some (if url = [] ∨ url = "/".toList then "index.html".toList else url,
          findHeader lines "Host".toList ":".toList)
      | _ => none

def pathOf (hpd : HttpPrivateData) (host : Option Text) (url : Text) : Text :=
  hpd.webRoot ++ "/".toList ++ host.getD "default".toList ++ "/".toList ++ url

/-! ## The CGI program -/

/-- `request_to_env` -/
def requestToEnv (request : Text) : List Text :=
  (splitBy request "\r\n".toList).filterMap fun line =>
    match splitBy line ":".toList with
    | [key, value] =>
      some ("HTTP_".toList ++ (key.map fun c => if c = '-' then '_' else c.toUpper) ++ "=".toList ++
        value.dropWhile (· = ' '))
    | _ => none

/-- The arguments that `exec_with_pipe` makes of a command. -/
def execArguments (command : Text) : List Text := (splitBy command " ".toList).map cStr

def execWithPipe (world : World) (command : Text) (envs : List Text) : Option (List Text) :=
  world.execvpe (execArguments command) (envs.map cStr)

def cgiCommand (bin path : Text) : Text := bin ++ " -e ".toList ++ path

/-- `invoke_cgi`: each piece that is read is taken for a C text. -/
def invokeCgi (world : World) (bin path request : Text) : Option Text :=
  (execWithPipe world (cgiCommand bin path) (requestToEnv request)).map (·.flatMap cStr)

/-! ## The response -/

/-- `rc`, `header` and `content`, with the MIME type. -/
structure Reply where
  rc : ℕ := 200
  mimeType : Text
  header : Text := []
  content : Text := []

def mimeTypeOf (url : Text) : Text :=
  match rfind '.' url with
  | none => "text/plain".toList
  | some dot =>
    if url.drop dot = ".html".toList then "text/html".toList
    else if url.drop dot = ".ico".toList then "image/x-icon".toList
    else "text/plain".toList

/-- The loop over the output of the CGI program: where the second line end in a row ends, by the
number of CRs and LFs seen since another character. -/
def endOfHeaders (cr lf i : ℕ) : Text → Option ℕ
  | [] => none
  | c :: text =>
    let cr' := if c = '\r' then cr + 1 else if c = '\n' then cr else 0
    let lf' := if c = '\r' then lf else if c = '\n' then lf + 1 else 0
    if 2 ≤ cr' ∧ 2 ≤ lf' then some i else endOfHeaders cr' lf' (i + 1) text

def cgiReply (mimeType : Text) : Option Text → Reply
  | none => { rc := 500, mimeType }
  | some text =>
    match endOfHeaders 0 0 0 text with
    | some i =>
      let header := text.take i
      let content := text.drop i
      { rc := if content.isEmpty ∧ header.isEmpty then 500 else 200, mimeType, header, content }
    | none => { rc := 500, mimeType }

/-- The file itself. The number of bytes that `fread` returns goes through an `int`. -/
def fileReply (mimeType : Text) (fileSize : ℕ) : Option Text → Reply
  | none => { rc := 500, mimeType, content := "File disappeared before it could be read.".toList }
  | some bytes =>
    let frc := (BitVec.ofNat 32 (bytes.take fileSize).length).toInt
    if (BitVec.ofInt 64 frc).toNat = fileSize then { mimeType, content := bytes.take fileSize }
    else { rc := 500, mimeType, content := "Cannot read file.".toList }

/-- The branches of `generate_response`, with what they do with the path. -/
def respond (hpd : HttpPrivateData) (world : World) (request url path : Text) :
    Reply × List FileOp :=
  let mimeType := mimeTypeOf url
  if (find "..".toList url).isSome then
    ({ rc := 500, mimeType, content := "Server error.".toList }, [])
  else if url = "/stats.json".toList then
    ({ mimeType := "application/json".toList, content := world.toJson }, [])
  else
    match world.stat (cStr path) with
    | none =>
      ({ rc := 404, mimeType, content := "File does not exist.".toList }, [.stat (cStr path)])
    | some fileSize =>
      if (rfindText ".php".toList url).isSome ∧ ¬ hpd.phpCgi.isEmpty then
        (cgiReply mimeType (invokeCgi world hpd.phpCgi path request),
          [.stat (cStr path), .invokeCgi hpd.phpCgi (execArguments (cgiCommand hpd.phpCgi path))])
      else
        (fileReply mimeType fileSize (world.fopen (cStr path)),
          [.stat (cStr path), .fopen (cStr path)])

/-- The header that is sent. -/
def formatHeader (r : Reply) : Text :=
  if r.rc = 200 then
    if r.header.isEmpty then
      "HTTP/1.0 ".toList ++ decimal r.rc ++ " OK\r\nServer: MyIP\r\nContent-Type: ".toList ++
        r.mimeType ++ "\r\nContent-Length: ".toList ++ decimal r.content.length ++
        "\r\nConnection: close\r\n\r\n".toList
    else
      "HTTP/1.0 ".toList ++ decimal r.rc ++ " OK\r\nServer: MyIP\r\nConnection: close\r\n".toList ++
        cStr r.header ++ "\r\n".toList
  else
    "HTTP/1.0 ".toList ++ decimal r.rc ++
      " Something is wrong\r\nServer: MyIP\r\nConnection: close\r\n\r\n".toList

/-- `generate_response`: the response, if there is one, and what was done with paths. -/
def generateResponse (hpd : HttpPrivateData) (world : World) (request : Text) :
    Option (Text × Text) × List FileOp :=
  match parseRequest request with
  | none => (none, [])
  | some (url, host) =>
    let r := respond hpd world request url (pathOf hpd host url)
    (some (formatHeader r.1, r.1.content), r.2)

/-! ## Where the paths lead -/

/-- The path goes on from the root and not up, so that it names nothing outside. -/
structure InRoot (root path : Text) : Prop where
  below : Below root path
  inside : ∀ dir, resolve dir (components root) <+: resolve dir (components path)

/-- The request gets as far as a file. -/
def usesPath (url : Text) : Prop := ¬ up <:+: url ∧ url ≠ "/stats.json".toList

/-- The file is there, and the CGI program is to run for it. -/
def runsCgi (hpd : HttpPrivateData) (world : World) (url path : Text) : Prop :=
  (world.stat (cStr path)).isSome ∧ (rfindText ".php".toList url).isSome ∧ ¬ hpd.phpCgi.isEmpty

/-- What is done: the path is tested, and then the file opened or the CGI program run. -/
theorem mem_respond_iff (hpd : HttpPrivateData) (world : World) (request path : Text) {url : Text}
    (used : usesPath url) (op : FileOp) :
    op ∈ (respond hpd world request url path).2 ↔ op = .stat (cStr path) ∨
      runsCgi hpd world url path ∧
        op = .invokeCgi hpd.phpCgi (execArguments (cgiCommand hpd.phpCgi path)) ∨
      (world.stat (cStr path)).isSome ∧ ¬ runsCgi hpd world url path ∧ op = .fopen (cStr path) := by
  have hdots : (find "..".toList url).isSome = false := by
    rw [Option.isSome_eq_false_iff, Option.isNone_iff_eq_none]
    exact find_none_iff.mpr used.1
  unfold respond runsCgi
  dsimp only
  rw [hdots, if_neg Bool.false_ne_true, if_neg used.2]
  cases world.stat (cStr path) with
  | none => simp
  | some fileSize =>
    dsimp only
    split
    · next hcgi =>
      simp only [List.mem_cons, List.not_mem_nil, Option.isSome_some, hcgi, Bool.false_eq_true,
        not_false_eq_true, and_self, not_true_eq_false, true_and, false_and, and_false, or_false]
    · next hcgi =>
      simp only [List.mem_cons, List.not_mem_nil, Option.isSome_some, hcgi, not_false_eq_true,
        and_false, true_and, false_and, or_false, false_or]

theorem respond_unused {hpd : HttpPrivateData} {world : World} {request url path : Text}
    (unused : ¬ usesPath url) : (respond hpd world request url path).2 = [] := by
  unfold respond
  dsimp only
  split
  · rfl
  · next hdots =>
    have hnone : find "..".toList url = none := by simpa using hdots
    have hup : ¬ up <:+: url := find_none_iff.mp hnone
    rw [if_pos (by_contra fun h => unused ⟨hup, h⟩)]

/-- A URL without two dots in a row adds no component that goes up, wherever it is cut off. -/
theorem up_not_mem_url {url : Text} (h : ¬ up <:+: url) : up ∉ components (cStr url) := by
  intro hm
  exact h ((infix_of_mem_components hm).trans (cStr_isPrefix url).isInfix)

theorem inRoot_iff_below {root path : Text} : InRoot root path ↔ Below root path :=
  ⟨fun h => h.below, fun h => ⟨h, h.resolve⟩⟩

theorem inRoot_cStr_iff {root : Text} (hroot : '\x00' ∉ root) (rest : Text) :
    InRoot root (cStr (root ++ '/' :: rest)) ↔ up ∉ components (cStr rest) := by
  have hslash : cStr ('/' :: rest) = '/' :: cStr rest := cStr_append (t := ['/']) (by decide) rest
  rw [inRoot_iff_below, cStr_append hroot, hslash, below_iff]

/-- What comes behind the value of the `Host` header does not lead out. -/
theorem components_host_iff {host url : Text} (h : ¬ up <:+: url) :
    up ∉ components (cStr (host ++ '/' :: url)) ↔ up ∉ components (cStr host) := by
  by_cases hnul : '\x00' ∈ host
  · rw [cStr_append_of_mem hnul]
  · have hslash : cStr ('/' :: url) = '/' :: cStr url := cStr_append (t := ['/']) (by decide) url
    rw [cStr_append hnul, hslash, components_append, cStr_eq_self hnul, List.mem_append,
      or_iff_left (up_not_mem_url h)]

theorem pathOf_eq (hpd : HttpPrivateData) (host : Option Text) (url : Text) :
    pathOf hpd host url = hpd.webRoot ++ '/' :: (host.getD "default".toList ++ '/' :: url) := by
  simp [pathOf]

/-! ## The first argument -/

theorem takeWhile_append_of_notMem {c : Char} {t : Text} (h : c ∉ t) (t' : Text) :
    (t ++ t').takeWhile (· ≠ c) = t ++ t'.takeWhile (· ≠ c) := by
  apply List.takeWhile_append_of_pos
  intro x hx
  simpa using fun he : x = c => h (he ▸ hx)

theorem takeWhile_append_of_mem {c : Char} {t : Text} (h : c ∈ t) (t' : Text) :
    (t ++ t').takeWhile (· ≠ c) = t.takeWhile (· ≠ c) := by
  induction t with
  | nil => cases h
  | cons x t ih =>
    rw [List.cons_append, List.takeWhile_cons, List.takeWhile_cons]
    by_cases hx : x = c
    · simp [hx]
    · have ht : c ∈ t := (List.mem_cons.mp h).resolve_left (Ne.symm hx)
      rw [ih ht]

theorem split_eq_splitOn {c : Char} {text : Text} (h : text ≠ []) :
    splitBy text [c] = text.splitOn c := by
  rw [splitBy_singleton, split, splitFrom_eq_splitOn text List.not_mem_nil h, List.nil_append]

theorem scriptArguments_eq {bin : Text} (path : Text) (h : bin ≠ []) :
    scriptArguments bin (execArguments (cgiCommand bin path)) = (path.splitOn ' ').map cStr := by
  have hcommand : cgiCommand bin path = bin ++ ' ' :: ("-e".toList ++ ' ' :: path) := by
    simp [cgiCommand]
  have hsplit : splitBy (cgiCommand bin path) " ".toList =
      splitBy bin " ".toList ++ "-e".toList :: path.splitOn ' ' := by
    have hflag : ("-e".toList ++ ' ' :: path).splitOn ' ' = "-e".toList :: path.splitOn ' ' :=
      List.splitOn_append_cons_self_of_not_mem (by decide) path
    have hspace : " ".toList = [' '] := rfl
    rw [hcommand, hspace, split_eq_splitOn (by simp), split_eq_splitOn h,
      List.splitOn_append_cons_self, hflag]
  rw [scriptArguments, execArguments, hsplit, List.map_append, List.drop_append,
    List.drop_of_length_le (by simp), List.length_map, Nat.add_sub_cancel_left]
  rfl

theorem splitOn_headD (c : Char) (text : Text) :
    (text.splitOn c).headD [] = text.takeWhile (· ≠ c) := by
  induction text with
  | nil => rfl
  | cons x text ih =>
    rw [List.splitOn_cons_eq_if_modifyHead, List.takeWhile_cons]
    by_cases hx : x = c
    · simp [hx]
    · obtain ⟨first, others, he⟩ := List.exists_cons_of_ne_nil (List.splitOn_ne_nil c text)
      rw [he, List.headD_cons] at ih
      simp [hx, he, ih]

theorem splitOn_length_eq_one_iff {c : Char} {text : Text} :
    (text.splitOn c).length = 1 ↔ c ∉ text := by
  refine ⟨fun h hc => ?_, fun h => by rw [List.splitOn_eq_singleton h, List.length_singleton]⟩
  obtain ⟨before, rest, rfl⟩ := List.append_of_mem hc
  have hbefore := List.length_pos_of_ne_nil (List.splitOn_ne_nil c before)
  have hrest := List.length_pos_of_ne_nil (List.splitOn_ne_nil c rest)
  rw [List.splitOn_append_cons_self, List.length_append] at h
  omega

/-- The script that the CGI program is given. -/
theorem invokeCgi_path {bin : Text} (path : Text) (h : bin ≠ []) :
    (FileOp.invokeCgi bin (execArguments (cgiCommand bin path))).path =
      cStr (path.takeWhile (· ≠ ' ')) := by
  obtain ⟨first, others, he⟩ := List.exists_cons_of_ne_nil (List.splitOn_ne_nil ' ' path)
  have hfirst := splitOn_headD ' ' path
  rw [he, List.headD_cons] at hfirst
  rw [FileOp.path, scriptArguments_eq path h, he, List.map_cons, List.headD_cons, hfirst]

/-- It is in the document root if the root has no space and the value of the `Host` header does not go
up before the first one. -/
theorem script_inRoot_iff {root host url : Text} (hroot : '\x00' ∉ root) (h : ¬ up <:+: url) :
    InRoot root (cStr ((root ++ '/' :: (host ++ '/' :: url)).takeWhile (· ≠ ' '))) ↔
      ' ' ∉ root ∧ up ∉ components (cStr (host.takeWhile (· ≠ ' '))) := by
  by_cases hspace : ' ' ∈ root
  · -- what is left of the root is too short
    refine iff_of_false (fun hin => ?_) fun hboth => hboth.1 hspace
    obtain ⟨rest, hcut, -⟩ := hin.below
    have hle : (cStr ((root ++ '/' :: (host ++ '/' :: url)).takeWhile (· ≠ ' '))).length ≤
        root.length := by
      apply (cStr_isPrefix _).length_le.trans
      rw [takeWhile_append_of_mem hspace]
      exact (List.takeWhile_prefix _).length_le
    rw [hcut, List.length_append, List.length_cons] at hle
    omega
  · have hroot' : (root ++ '/' :: (host ++ '/' :: url)).takeWhile (· ≠ ' ') =
        root ++ '/' :: (host ++ '/' :: url).takeWhile (· ≠ ' ') := by
      rw [takeWhile_append_of_notMem hspace]
      exact congrArg (root ++ ·) (takeWhile_append_of_notMem (t := ['/']) (by decide) _)
    rw [hroot', and_iff_right hspace, inRoot_cStr_iff hroot]
    by_cases hhost : ' ' ∈ host
    · rw [takeWhile_append_of_mem hhost]
    · have hself : host.takeWhile (· ≠ ' ') = host := by
        simpa using takeWhile_append_of_notMem hhost []
      have hslash : ('/' :: url).takeWhile (· ≠ ' ') = '/' :: url.takeWhile (· ≠ ' ') :=
        takeWhile_append_of_notMem (t := ['/']) (by decide) url
      rw [takeWhile_append_of_notMem hhost, hself, hslash]
      exact components_host_iff fun hup => h (hup.trans (List.takeWhile_prefix _).isInfix)

/-! ## What is done stays in the root -/

/-- What is tested, opened or given to the CGI program for a path. -/
theorem respond_inRoot_iff (hpd : HttpPrivateData) (world : World) (request : Text)
    (host : Option Text) {url : Text} (used : usesPath url) :
    (∀ op ∈ (respond hpd world request url (pathOf hpd host url)).2, InRoot hpd.webRoot op.path) ↔
      up ∉ components (cStr (host.getD "default".toList)) ∧
        (runsCgi hpd world url (pathOf hpd host url) → ' ' ∉ hpd.webRoot ∧
          up ∉ components (cStr ((host.getD "default".toList).takeWhile (· ≠ ' ')))) := by
  have hwhole : InRoot hpd.webRoot (cStr (pathOf hpd host url)) ↔
      up ∉ components (cStr (host.getD "default".toList)) := by
    rw [pathOf_eq, inRoot_cStr_iff hpd.webRoot_text, components_host_iff used.1]
  have hscript : runsCgi hpd world url (pathOf hpd host url) →
      (InRoot hpd.webRoot (FileOp.invokeCgi hpd.phpCgi
        (execArguments (cgiCommand hpd.phpCgi (pathOf hpd host url)))).path ↔ ' ' ∉ hpd.webRoot ∧
          up ∉ components (cStr ((host.getD "default".toList).takeWhile (· ≠ ' ')))) := by
    rintro ⟨-, -, hbin⟩
    rw [invokeCgi_path _ (by simpa using hbin), pathOf_eq, script_inRoot_iff hpd.webRoot_text used.1]
  simp only [mem_respond_iff hpd world request _ used]
  constructor
  · intro h
    exact ⟨hwhole.mp (h _ (.inl rfl)), fun hcgi => (hscript hcgi).mp (h _ (.inr (.inl ⟨hcgi, rfl⟩)))⟩
  · rintro ⟨hhost, hfirst⟩ op (rfl | ⟨hcgi, rfl⟩ | ⟨-, -, rfl⟩)
    · exact hwhole.mpr hhost
    · exact (hscript hcgi).mpr (hfirst hcgi)
    · exact hwhole.mpr hhost

theorem respond_script_iff (hpd : HttpPrivateData) (world : World) {request url path bin : Text}
    {arguments : List Text} (h : .invokeCgi bin arguments ∈ (respond hpd world request url path).2) :
    scriptArguments bin arguments = [cStr path] ↔ ' ' ∉ path := by
  have used : usesPath url := by
    by_contra unused
    rw [respond_unused unused] at h
    cases h
  rw [mem_respond_iff hpd world request path used] at h
  obtain hop | ⟨⟨-, -, hbin⟩, hop⟩ | ⟨-, -, hop⟩ := h
  · cases hop
  · obtain ⟨rfl, rfl⟩ := FileOp.invokeCgi.inj hop
    rw [scriptArguments_eq path (by simpa using hbin)]
    constructor
    · intro he
      have hlength := congrArg List.length he
      rwa [List.length_map, List.length_singleton, splitOn_length_eq_one_iff] at hlength
    · intro hspace
      rw [List.splitOn_eq_singleton hspace, List.map_singleton]
  · cases hop

/-- Every path that is used stays in the document root, exactly if the value of the `Host` header
of a request that gets as far as a file has no component that goes up, also not when it is cut off at
its first space where the CGI program is run, and the root has no space there. That program gets the
path that was tested exactly if it has no space. -/
theorem stays_in_root_iff (hpd : HttpPrivateData) (world : World) (request : Text) :
    ((∀ op ∈ (generateResponse hpd world request).2, InRoot hpd.webRoot op.path) ↔
      ∀ url host, parseRequest request = some (url, host) → usesPath url →
        up ∉ components (cStr (host.getD "default".toList)) ∧
          (runsCgi hpd world url (pathOf hpd host url) → ' ' ∉ hpd.webRoot ∧
            up ∉ components (cStr ((host.getD "default".toList).takeWhile (· ≠ ' '))))) ∧
    ∀ url host, parseRequest request = some (url, host) → ∀ bin arguments,
      .invokeCgi bin arguments ∈ (generateResponse hpd world request).2 →
        (scriptArguments bin arguments = [cStr (pathOf hpd host url)] ↔
          ' ' ∉ pathOf hpd host url) := by
  unfold generateResponse
  cases hp : parseRequest request with
  | none => simp
  | some parsed =>
    obtain ⟨url, host⟩ := parsed
    simp only [Option.some.injEq, Prod.mk.injEq, and_imp]
    constructor
    · by_cases used : usesPath url
      · rw [respond_inRoot_iff hpd world request host used]
        constructor
        · rintro h _ _ rfl rfl -
          exact h
        · intro h
          exact h url host rfl rfl used
      · rw [respond_unused used]
        refine iff_of_true (by simp) ?_
        rintro _ _ rfl rfl h
        exact absurd h used
    · rintro _ _ rfl rfl bin arguments hop
      exact respond_script_iff hpd world hop

namespace Sample

def webRoot : Text := "/srv/www".toList

theorem webRoot_text : '\x00' ∉ webRoot := by decide +kernel

def hpd : HttpPrivateData := ⟨webRoot, "php-cgi".toList, webRoot_text⟩

/-- A world in which every file is there. -/
def world : World where
  stat _ := some 2
  fopen _ := some "ok".toList
  execvpe _ _ := none
  toJson := []

end Sample

/-- The `Host` header names a directory that is not below the document root. For a PHP file a value
that is one name for the file system is enough: the script is what stands before the space. -/
theorem host_leads_out :
    ((generateResponse Sample.hpd Sample.world
        "GET /passwd HTTP/1.0\r\nhost: ../../etc\r\n\r\n".toList).2 =
      [.stat "/srv/www/../../etc//passwd".toList, .fopen "/srv/www/../../etc//passwd".toList] ∧
    resolve [] (components "/srv/www/../../etc//passwd".toList) =
      ["etc".toList, "passwd".toList] ∧
    ¬ InRoot Sample.webRoot "/srv/www/../../etc//passwd".toList) ∧
    (generateResponse Sample.hpd Sample.world
        "GET /x.php HTTP/1.0\r\nhost: .. x\r\n\r\n".toList).2 =
      [.stat "/srv/www/.. x//x.php".toList, .invokeCgi "php-cgi".toList
        ["php-cgi".toList, "-e".toList, "/srv/www/..".toList, "x//x.php".toList]] ∧
    resolve [] (components "/srv/www/..".toList) = ["srv".toList] ∧
    ¬ InRoot Sample.webRoot "/srv/www/..".toList := by
  have hinside : ∀ path : Text,
      ¬ resolve [] (components Sample.webRoot) <+: resolve [] (components path) →
        ¬ InRoot Sample.webRoot path := fun path hout h => hout (h.inside [])
  exact ⟨⟨by decide +kernel, by decide +kernel, hinside _ (by decide +kernel)⟩, by decide +kernel,
    by decide +kernel, hinside _ (by decide +kernel)⟩

end MyIp.Http
