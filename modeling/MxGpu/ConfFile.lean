import MxGpu.ConfOpts
import MxGpu.Tokens

/-!
The configuration file: how it is read, how it is written over, and the start of the driver
around both.
-/

namespace MxGpu.Conf

def maxConfigFileLength : Nat := 1024

/-- A byte of ` =\n\t`. -/
def isDelimiter (c : UInt8) : Bool := c == 32 || c == 61 || c == 10 || c == 9

def cstring (data : Text) : Text := data.takeWhile (· != 0)

/-- The options after a file was read, and whether the file was thrown away. -/
structure Parsed where
  opts : Opts
  truncated : Bool

/-- `gim_conf_parse_conf_file` over the tokens of the file. `uninit` is what the local `value`
holds when `kstrtoint` does not set it. -/
def parseConfFile (uninit : List Text → Int) : List Text → Opts → Parsed
  | [], s => ⟨s, false⟩
  | [key], s =>
    match searchConfigKey key with
    | none => ⟨s.fillDefault, true⟩
    | some _ => ⟨s, false⟩
  | key :: token :: rest, s =>
    match searchConfigKey key with
    | none => ⟨s.fillDefault, true⟩
    | some o =>
      if o.info.array then parseConfFile uninit rest (s.handleArrayToken token o)
      else
        let value := (kstrtoint token).getD (uninit (token :: rest))
        if !o.info.persistent then ⟨s.fillDefault, true⟩
        else
          parseConfFile uninit rest (if validOpt o value then s.setConfOpt o value else s)

/-- The buffer the text of a save is printed into, and the position in it. -/
structure SaveBuf where
  text : Text
  cursor : Nat

/-- `cursor += snprintf(buf + cursor, MAX_CONFIG_FILE_LENGTH - cursor, ..)`. A negative size
reaches `snprintf` as a huge one, which it refuses. -/
def SaveBuf.print (b : SaveBuf) (s : Text) : SaveBuf :=
  if maxConfigFileLength < b.cursor then b
  else ⟨b.text ++ s.take (maxConfigFileLength - b.cursor - 1), b.cursor + s.length⟩

namespace Opts

variable (s : Opts)

/-- What `gim_conf_save` prints for one option. -/
def printOpt (o : ConfOpt) (b : SaveBuf) : SaveBuf :=
  if o.info.array then
    let b := b.print (o.info.name ++ 61 :: printInt ((s o).value 0))
    let b := (List.range' 1 (min maxGpuNum (s o).repeatValIdx - 1)).foldl
      (fun b i => b.print (44 :: printInt ((s o).value i))) b
    b.print [10]
  else b.print (o.info.name ++ 61 :: (printInt ((s o).value 0) ++ [10]))

/-- The loop of `gim_conf_save`. -/
def printOpts : List ConfOpt → SaveBuf → SaveBuf
  | [], b => b
  | o :: os, b =>
    if !o.info.persistent then printOpts os b
    else
      let b := s.printOpt o b
      if maxConfigFileLength ≤ b.cursor then b else printOpts os b

/-- The buffer `gim_conf_save` writes to the file. -/
def saveBuf : SaveBuf := s.printOpts ConfOpt.all ⟨[], 0⟩

end Opts

/-- `gim_conf_write_conf_file`: a write at the start of the file, which is neither created nor
cut. -/
def writeConfFile (content : Text) (file : Option Text) : Option Text :=
  file.map fun old => content ++ old.drop content.length

def confSave (s : Opts) (file : Option Text) : Option Text := writeConfFile s.saveBuf.text file

/-- `gim_conf_set_opt`: what it returns, the options and the file. -/
def confSetOpt (s : Opts) (file : Option Text) (o : ConfOpt) (value : Int) :
    Int × Opts × Option Text :=
  if validOpt o value then
    let s := s.setConfOpt o value
    (0, s, if o.info.persistent then confSave s file else file)
  else (-1, s, file)

/-- An option of the command line: values for the GPUs, or one value of which 0 is not taken. -/
inductive Param
  | array (o : ConfOpt) (values : List (BitVec 32))
  | mode (o : ConfOpt) (value : BitVec 32)

/-- One parameter as `gim_conf_init` takes it. -/
def Opts.setParam (s : Opts) : Param → Opts
  | .array o values => if values = [] then s else s.setArrayValue o values
  | .mode o value =>
    if value = 0 then s
    else
      let value := if validOpt o value.toInt then value.toInt else o.info.defaultValue
      if o = .enableLiveMigration then s.setConfOpt o value
      else Function.update s o { s o with value := fun _ => value }

/-- The driver after `gim_conf_init`. -/
structure Started where
  opts : Opts
  file : Option Text
  truncated : Bool

def Opts.defaults : Opts := ConfOpt.all.foldl
  (fun s o => if o.info.array then s.fill o o.info.defaultValue else s) Opts.initial

def confInit (uninit : List Text → Int) (params : List Param) (file : Option Text) : Started :=
  let s := Opts.defaults
  let read : Started :=
    match file with
    | none => ⟨s.initPersistConfig, some [], false⟩
    | some data =>
      let parsed := parseConfFile uninit (Tokens.tokens isDelimiter (cstring data)) s
      ⟨parsed.opts, some (if parsed.truncated then [] else data), parsed.truncated⟩
  let s := (params.foldl Opts.setParam read.opts).clearSavedPersistConfig file.isNone
  ⟨s, confSave s read.file, read.truncated⟩

end MxGpu.Conf
