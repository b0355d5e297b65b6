import SealedColumns.Encryption.Properties

/-!
# Writer properties

How a file is laid out: the number of rows in a data page, the use of dictionaries, the name of the
writing application, and the encryption.
-/

namespace SealedColumns

/-- The settings of a file writer. -/
structure WriterProperties where
  /-- The largest number of rows in a data page. -/
  pageRowLimit : Nat := 1024
  pageRowLimit_pos : 0 < pageRowLimit := by decide
  createdBy : String := "parquet-crypto version 0.1.0"
  /-- Whether columns get a dictionary, unless a column has a setting of its own. -/
  dictionaryEnabled : Bool := true
  columnDictionary : PathMap Bool := {}
  encryption : Option EncryptionProperties := none

namespace WriterProperties

/-- Sets the largest number of rows in a data page. Zero breaks a promise. -/
def withPageRowLimit (p : WriterProperties) (n : Nat) : Except Error WriterProperties :=
  if h : 0 < n then .ok { p with pageRowLimit := n, pageRowLimit_pos := h }
  else .error .pageRowLimitZero

/-- Sets the name of the writing application. -/
def withCreatedBy (p : WriterProperties) (createdBy : String) : WriterProperties :=
  { p with createdBy }

/-- Sets the use of dictionaries for columns without a setting of their own. -/
def withDictionary (p : WriterProperties) (enabled : Bool) : WriterProperties :=
  { p with dictionaryEnabled := enabled }

/-- Sets the use of a dictionary for one column. -/
def withColumnDictionary (p : WriterProperties) (path : ColumnPath) (enabled : Bool) :
    WriterProperties :=
  { p with columnDictionary := p.columnDictionary.insert path enabled }

/-- Sets the encryption. -/
def withEncryption (p : WriterProperties) (encryption : EncryptionProperties) : WriterProperties :=
  { p with encryption := some encryption }

/-- Whether a column gets a dictionary. -/
def usesDictionary (p : WriterProperties) (path : ColumnPath) : Bool :=
  (p.columnDictionary.get? path).getD p.dictionaryEnabled

end WriterProperties

end SealedColumns
