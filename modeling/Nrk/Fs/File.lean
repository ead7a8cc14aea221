import Nrk.Basic
import Nrk.Lib.Chunks

/-! # File contents (`kernel/src/fs/file.rs`)

A `File` is its vector of buffers; each fallible allocation is one request to the allocator. -/

namespace Nrk.Fs

structure File where
  mcache : List (List UInt8)
  modes : FileModes
  deriving DecidableEq, Repr

/-- `Vec::try_resize(n, 0)`: truncate to `n` bytes or pad with zeros up to `n`. -/
def try_resize (data : List UInt8) (n : ℕ) : AllocM (Except KError (List UInt8)) := do
  if ← AllocM.request then return .ok ((data.take n).rightpad n 0)
  else return .error .OutOfMemory

/-- `Buffer::try_alloc_buffer`: an empty buffer with room for one page. -/
def try_alloc_buffer : AllocM (Except KError (List UInt8)) := do
  if ← AllocM.request then return .ok [] else return .error .OutOfMemory

/-- `SliceAccess::write_subslice` for a kernel buffer `&mut [u8]`. -/
def write_subslice (dst buffer : List UInt8) (offset : ℕ) : Except KError (List UInt8) :=
  if dst.length < offset + buffer.length then .error .InvalidOffset
  else .ok (dst.overwrite offset buffer)

/-- The number of buffers needed for `bytes` bytes. -/
def ceil (bytes buffer_size : ℕ) : ℕ :=
  let val := bytes / buffer_size
  if bytes > val * buffer_size then val + 1 else val

def offset_to_buffernum (offset buffer_size : ℕ) : ℕ := offset / buffer_size

namespace File

/-- `File::new`: the buffer list is allocated up front. -/
def new (modes : FileModes) : AllocM (Except KError File) := do
  if ← AllocM.request then return .ok ⟨[], modes⟩ else return .error .OutOfMemory

/-- The scan of `get_size`: the buffer lengths up to the first empty buffer. -/
def scanned_size : List (List UInt8) → ℕ
  | [] => 0
  | buf :: bufs =>
      match buf.length with
      | 0 => 0
      | curr_buff_len => curr_buff_len + scanned_size bufs

def get_size (f : File) : ℕ :=
  let buffer_num := f.mcache.length
  match buffer_num with
  | 0 => 0
  | 1 => (f.mcache.getLastD []).length
  | _ =>
      match (f.mcache.getLastD []).length with
      -- empty buffers added for later use: scan for the size
      | 0 => scanned_size f.mcache
      | last_buffer_len => (buffer_num - 1) * BASE_PAGE_SIZE + last_buffer_len

def get_mode (f : File) : FileModes := f.modes

/-- `free_in_last_buffer` of `increase_file_size`: the room left in the last buffer. -/
def free_in_last_buffer (f : File) : ℕ :=
  match f.mcache.getLast? with
  | some buffer => BASE_PAGE_SIZE - buffer.length
  | none => 0

/-- The first step of growing by whole buffers: the last buffer is filled up to a page. -/
def fill_last_buffer (f : File) : AllocM (Except KError File) := do
  match f.mcache.getLast? with
  | none => return .ok f
  | some last =>
      match ← try_resize last BASE_PAGE_SIZE with
      | .ok last => return .ok ⟨f.mcache.dropLast ++ [last], f.modes⟩
      | .error e => return .error e

/-- The `for _i in 0..new_buffers` loop: `n` zero-filled page buffers. -/
def alloc_buffers : ℕ → AllocM (Except KError (List (List UInt8)))
  | 0 => return .ok []
  | n + 1 => do
      match ← try_alloc_buffer with
      | .error e => return .error e
      | .ok buffer =>
          match ← try_resize buffer BASE_PAGE_SIZE with
          | .error e => return .error e
          | .ok buffer =>
              match ← alloc_buffers n with
              | .error e => return .error e
              | .ok vec => return .ok (buffer :: vec)

/-- Shrinks the last new buffer so that the file ends at `new_len`. `f` is the file after
its last buffer was filled up. -/
def trim_new_buffers (f : File) (new_len new_buffers : ℕ) (vec : List (List UInt8)) :
    AllocM (Except KError (List (List UInt8))) := do
  if new_len % BASE_PAGE_SIZE ≠ 0 then
    let sure_bytes_to_write := (new_buffers - 1) * BASE_PAGE_SIZE
    let bytes_in_last_buffer := new_len - (f.get_size + sure_bytes_to_write)
    let some last := vec.getLast? | AllocM.panic
    match ← try_resize last bytes_in_last_buffer with
    | .ok last => return .ok (vec.dropLast ++ [last])
    | .error e => return .error e
  else return .ok vec

/-- `increase_file_size(curr_file_len, new_len)`: zero-fills the file up to `new_len`. The
file is returned with the error, as the code leaves it. -/
def increase_file_size (f : File) (curr_file_len new_len : ℕ) :
    AllocM (File × Except KError Unit) := do
  if new_len = 0 then return (f, .ok ())
  let free_in_last_buffer := f.free_in_last_buffer
  let add_new := new_len - curr_file_len
  if add_new ≤ free_in_last_buffer then
    -- the last buffer has room for the new bytes
    let some last := f.mcache.getLast? | AllocM.panic
    match ← try_resize last (last.length + add_new) with
    | .ok last => return (⟨f.mcache.dropLast ++ [last], f.modes⟩, .ok ())
    | .error e => return (f, .error e)
  else
    match ← f.fill_last_buffer with
    | .error e => return (f, .error e)
    | .ok f =>
        let remaining := add_new - free_in_last_buffer
        let new_buffers := ceil remaining BASE_PAGE_SIZE
        -- `Vec::try_with_capacity(new_buffers)`
        if !(← AllocM.request) then return (f, .error .OutOfMemory)
        match ← alloc_buffers new_buffers with
        | .error e => return (f, .error e)
        | .ok vec =>
            match ← f.trim_new_buffers new_len new_buffers vec with
            | .error e => return (f, .error e)
            | .ok vec =>
                -- `try_append` reserves room in `mcache`
                if ← AllocM.request then return (⟨f.mcache ++ vec, f.modes⟩, .ok ())
                else return (f, .error .OutOfMemory)

/-- The `while copied < len` loop of `read_file`, over the buffers from `buffer_num` on. -/
def read_buffers (len : ℕ) :
    List (List UInt8) → ℕ → ℕ → ℕ → List UInt8 → Outcome (Except KError (List UInt8 × ℕ))
  | [], _, copied, _, dst => if copied < len then .panic else .ok (.ok (dst, copied))
  | data :: bufs, offset_in_buffer, copied, dst_start, dst =>
      if copied < len then
        if data.length < offset_in_buffer then .panic
        else
          let useful_data_curr_buffer := data.length - offset_in_buffer
          let remaining := len - copied
          let n := if remaining ≥ useful_data_curr_buffer then useful_data_curr_buffer
            else remaining
          match write_subslice dst ((data.drop offset_in_buffer).take n) dst_start with
          | .error e => .ok (.error e)
          | .ok dst => read_buffers len bufs 0 (copied + n) (dst_start + n) dst
      else .ok (.ok (dst, copied))

/-- `read_file(user_slice, start_offset, end_offset)`: the destination after the copy and
the number of bytes copied. -/
def read_file (f : File) (user_slice : List UInt8) (start_offset end_offset : ℕ) :
    Outcome (Except KError (List UInt8 × ℕ)) :=
  let buffer_num := offset_to_buffernum start_offset BASE_PAGE_SIZE
  let offset_in_buffer := start_offset - buffer_num * BASE_PAGE_SIZE
  let len := end_offset - start_offset
  read_buffers len (f.mcache.drop buffer_num) offset_in_buffer 0 0 user_slice

/-- The `while copied < len` loop of `write_file`, over the buffers from `buffer_num` on. -/
def write_buffers (user_slice : List UInt8) (len : ℕ) :
    List (List UInt8) → ℕ → ℕ → ℕ → Outcome (List (List UInt8))
  | [], _, copied, _ => if copied < len then .panic else .ok []
  | data :: bufs, offset_in_buffer, copied, dst_start =>
      if copied < len then
        if BASE_PAGE_SIZE < offset_in_buffer then .panic else
        let useful_data_curr_buffer := BASE_PAGE_SIZE - offset_in_buffer
        let remaining := len - copied
        let n := if remaining ≥ useful_data_curr_buffer then useful_data_curr_buffer
          else remaining
        if data.length < offset_in_buffer + n ∨ user_slice.length < dst_start + n then .panic
        else
          (data.overwrite offset_in_buffer ((user_slice.drop dst_start).take n) :: ·) <$>
            write_buffers user_slice len bufs 0 (copied + n) (dst_start + n)
      else .ok (data :: bufs)

/-- `write_file(user_slice, len, start_offset)`: grows the file to `start_offset + len` if
needed, then copies the bytes in. -/
def write_file (f : File) (user_slice : List UInt8) (len start_offset : ℕ) :
    AllocM (File × Except KError ℕ) := do
  let curr_file_len := f.get_size
  let new_len ← (Outcome.checkedAdd USIZE_BITS start_offset len : Outcome ℕ)
  let (f, grown) ← (if new_len > 0 ∧ new_len > curr_file_len then
      f.increase_file_size curr_file_len new_len else pure (f, .ok ()) : AllocM _)
  if grown.isOk = false then return (f, .error .OutOfMemory)
  let buffer_num := offset_to_buffernum start_offset BASE_PAGE_SIZE
  let offset_in_buffer := start_offset - buffer_num * BASE_PAGE_SIZE
  let written ← (write_buffers user_slice len (f.mcache.drop buffer_num) offset_in_buffer 0 0 :
    Outcome _)
  return (⟨f.mcache.take buffer_num ++ written, f.modes⟩, .ok len)

/-- `file_truncate`: drops every buffer. -/
def file_truncate (f : File) : File := ⟨[], f.modes⟩

end File

end Nrk.Fs
