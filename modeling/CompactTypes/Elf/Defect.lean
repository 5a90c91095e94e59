/-!
# Defects of object files

`Elf.Defect` lists the ways in which an object file can be malformed, and
`Elf.Defect.message` is the text that describes each of them.
-/

namespace CompactTypes.Elf

/-- A defect of an object file. -/
inductive Defect where
  /-- The file ends inside its header. -/
  | headerSize
  /-- The header has an unknown byte order or version. -/
  | unsupportedHeader
  /-- The program headers have the wrong size. -/
  | programHeaderEntrySize
  /-- The program headers do not lie in the file. -/
  | programHeaders
  /-- The number of program headers stands in a section header, and there is none. -/
  | missingProgramHeaderCount
  /-- The section headers have the wrong size. -/
  | sectionHeaderEntrySize
  /-- The first section header does not lie in the file. -/
  | firstSectionHeader
  /-- The section headers do not lie in the file. -/
  | sectionHeaders
  /-- No section holds the names of the sections. -/
  | missingNameTable
  /-- The section that holds the names of the sections does not exist. -/
  | badNameTable
  /-- The end of the section that holds the names of the sections does not fit in a word. -/
  | nameTableRange
  /-- A symbol table does not lie in the file or has a broken size. -/
  | symbolTableData
  /-- A link names a section that does not exist. -/
  | sectionIndex
  /-- The linked section holds no strings. -/
  | stringSectionType
  /-- The end of a string section does not fit in a word. -/
  | stringSectionRange
  /-- A table of extended section indices does not lie in the file. -/
  | extendedIndexData
  /-- Relocations apply to a section that does not exist. -/
  | relocationInfo
  /-- Relocations apply to relocations. -/
  | nestedRelocation
  /-- The data of a section does not lie in the file. -/
  | sectionData
  /-- A section without data claims to be compressed. -/
  | compressedType
  /-- A compression header does not lie in the file. -/
  | compressedOffset
  /-- A compressed section is smaller than its header. -/
  | compressedSize
  /-- A section is compressed with an unknown method. -/
  | unsupportedCompression
  /-- A section without data has a name that says that it is compressed. -/
  | gnuType
  /-- A section whose name says that it is compressed has no compression header. -/
  | gnuHeader
  /-- A section whose name says that it is compressed is smaller than its header. -/
  | gnuTooShort
  /-- There is no room for data of the size that a compression header announces. -/
  | inflatedRoom
  /-- Compressed data is broken. -/
  | corruptData
  /-- Compressed data does not have the size that its header announces. -/
  | inflatedSize
  deriving DecidableEq, Repr, Inhabited

/-- The text that describes a defect. -/
def Defect.message : Defect → String
  | headerSize => "Invalid ELF header size or alignment"
  | unsupportedHeader => "Unsupported ELF header"
  | programHeaderEntrySize => "Invalid ELF program header entry size"
  | programHeaders => "Invalid ELF program header size or alignment"
  | missingProgramHeaderCount => "Missing ELF section headers for e_phnum overflow"
  | sectionHeaderEntrySize => "Invalid ELF section header entry size"
  | firstSectionHeader => "Invalid ELF section header offset or size"
  | sectionHeaders => "Invalid ELF section header offset/size/alignment"
  | missingNameTable => "Missing ELF e_shstrndx"
  | badNameTable => "Invalid ELF e_shstrndx"
  | nameTableRange => "Invalid ELF shstrtab size"
  | symbolTableData => "Invalid ELF symbol table data"
  | sectionIndex => "Invalid ELF section index"
  | stringSectionType => "Invalid ELF string section type"
  | stringSectionRange => "Invalid ELF string section offset or size"
  | extendedIndexData => "Invalid ELF symtab_shndx data"
  | relocationInfo => "Invalid ELF sh_info for relocation section"
  | nestedRelocation => "Unsupported ELF sh_info for relocation section"
  | sectionData => "Invalid compressed data size or offset"
  | compressedType => "Invalid ELF compressed section type"
  | compressedOffset => "Invalid ELF compressed section offset"
  | compressedSize => "Invalid ELF compressed section size"
  | unsupportedCompression => "Unsupported ELF compression type"
  | gnuType => "Invalid ELF GNU compressed section type"
  | gnuHeader => "Invalid GNU compressed section header"
  | gnuTooShort => "GNU compressed section is too short"
  | inflatedRoom => "Uncompressed data allocation failed"
  | corruptData => "Invalid zlib compressed data"
  | inflatedSize => "Uncompressed data size does not match compression header"

end CompactTypes.Elf
