set_option autoImplicit false

namespace Stencil.Pattern.Table

/-- Names of each version and the code points it added, as gaps and lengths in base 36. -/
def ages : List (String × String) := [
  ("1.1 v11",
    "0Nx4tBkCg7Ba19mBxq1i1403056101j1B7163010*21hdb1Bt1b1B49Bg21213r2721BjB1261B210B2918cq54n0e0301p5idd2Bz241e1t29Of2
    1Bg2h243og217212l161033201621229041142k7025412l1611*220144122b3107ec21610121l16111429121220f059h217212l16112327312
    28141124ah11532133110113132371244321390fbe217121m1914461213719149i117121m191446121371701149i117121m1f452213908149
    E1Bl4sB11102110206316121010211c122410152921MiB1aB2404Ch5Bv5C9DHiEa5Ch6l252B1252710*21u2Bg1e1d251i22181Ba1mz63qhaB1
    huBkqBbdCilGpe01DcDpB0ralDulE5aC7gj6CdE13132r1y1013301626eu3n1dCGpBj701Cb452Cl6B34Cl1fCos3zsr3Bdfb4Ba1Da4Cq2uHCx
    WIlRPmHE5Fu6c46o141011111CzxK4gBr2BhB4bB03ck491i1342101Dq201Cl2Cl352525223616e2"),
  ("2.0 v20", "BNlg1ck0CNnBz1w7q45101k3610EBt0On0BMCsLYbDDBe1CSAe1*bCSAeFKAx"),
  ("2.1 v21", "IYc0CJBz0"),
  ("3.0 v30",
    "Ny3u72hD94Bd0a4Cf8j0D803010*2u0c0Bu0c0B6123Ck1Ec0Fk2Cq150f0B641d1t3qBhBcBPd11h3n18102630451017i2Kd0B70n270121e20
    Bcx141116336pLq61Bq10132610132B210132u101326101326161m1u1013261B21i6rzCccRh9s3C8DzCk39me196Cf8B5CBh0o5Cn2Be1Cd1C00
    Cv8Hh0Dd01tDu1Mp7x0Ce1L2H3BN4p1CgcFxqbBo230JtnQ8HAtWN6BGc3h2f1b1210XPy0BIj2"),
  ("3.1 v31",
    "BC41CQIqvBK0u13cqF1B12B1CDSiGtaB23EzP6Cc1By112021231b1013111Bs1327161r131410361Jd4I14BdKYgBTQeWF5P1BDRUr0uCn"),
  ("3.2 v32",
    "P40Ie0jcCw1s0E31Bl12121BdfJq1Ix0CNx1BQvc16bm9jcc1211CKr0644074d0Bq1Be6CaeEobGqdDg0uBfHwjE79Cg7m1Cib29G6dCir4fH4O7
    BL72Cf181Cm0GofC9e*1BFDu1g0c030XJeBmZd03fBh1B80Gj1"),
  ("4.0 v40",
    "P50i2Db1BrgC8752E74Oc398Bs2E51f0B92t2M40F40Bv010Ds0Cc2d0Bv0Bn0Dl7Fd1DB30i9Has3b4b403B524CzvVcCzUn1Ge0Sb1Ie0Ho1D87
    e1BF2dBY71Bd0B71C63En3Cr1v0HB4BrBWDh0C11M7b1p1i111e2dyDe524B838Q0t10Dq1B2C729Xq5201B7113020CDLsCeK20BGUHyGn"),
  ("4.1 v41",
    "PraHq4Ef3Gu1Eq0y2Bv0i0Bm5GptOn0C80Nj0Bb0BBt1I7110He0Br0*1B30v0*2f0B30n1vpBPyB56p6941wr21XgCfS9116Bd4t3Bh0C80f0Rwa
    Pw0Ct1ia5fHi6Xb5GkBa1BaxCyeB8aBh90gm9616*6xn41ZufEu0BDW7lBZomGhB7WN0CxWu9WeC2Otz4dBRu31157121q424888CCPrBxBF21"),
  ("5.0 v50",
    "Q2dIb2Jd0B65g3Em0OdBmKo111Y21d1DVxC34B8Q76Bf1Us3Cl1Bh0QnbTu0Ho3Xd653Isc73BHNz351HyBjBAKgp50GGoYeE1Cqd3BVVwhBEw1"),
  ("5.1 v51",
    "Yg321Cf0F30DwfGa4b4w4IehNt1G60z0Fq0t1D00*1q181k7F9060t1c536Nn1Cp032C5050207245qBr41CF60U5B63bByBj3e3BeJ7rF13Ci5Jw
    0Dv0Cm0Bh3BK40l933Hc0v3Wj44B434Hs21245Juvo32iV80EijBEB47BL8Ibkv2h8rDn42CyD24DkBw9bB2Cbb0EgBi9d2923WXo2Y9bBgB9Dms3
    BcBSvp50CCRl0ILaB74Cr"),
  ("5.2 v52",
    "BKk1UaB92eFd0C5060z1Dk0BPl3Fd3F84Bw4Ca5O80Ri8PkBxF01Ba0BxBq1s2a696dP6yHe0Tc2E72Bi0Qu0T91t2491i104nCf0BCd4Hq0d1Cz6
    Iv0BCybBDYc7BJoBbLkCfIo9EmrCss3C51a41Dkr4Buo4G8B929LYum4BcJKv2DUal18F61J0vDkBh3s2q57DkC0OvuO9BtIO6BDqBZQpa5u20b010
    2030348070p01120a320D30fxe8BXL3EL8"),
  ("6.0 v60",
    "BKm1Gw0Bq0Ncr20G31j061r4O25M10g0j0Px3C11Yy1CHlBf83O40Sg7s0WnaUa0j013t041s0z0104291Bg2o0e0e1BO00e0BE02BFXh1Ib111e9
    C80Vi525259616WAjfFNyC54tXYoPsTC71RRie2d2e1eC801a10111212571619681021194119C3p11Bb8l1Euwf51Bx3jcB014lgfBq101F1133
    BpinE341f1210*212152310231b4aBcBxBmD7CALwG5"),
  ("6.1 v61",
    "BNj0D80Sj01aBjqNt0BBx1Nj050Bb2CXv2c5H47B73CZ0010BKk1Bf050Bk1Fm9BFBk0BVb7z0Gq1m0C51UmmVRb1EEwBj61BY8o796Bg1dBoC079
    BH2Bj89YDaBwbBaggBIOo31q11102019131010604010101211102010*311102316131310191g52141gBg1Rk1BB83F80g03010*23061401140"),
  ("6.2 v62", "IYq0"),
  ("6.3 v63", "BRg0HEx3"),
  ("7.0 v70",
    "Yv0Ls7Cl1Da0Sj0b5C40Dc070Rr0Bf0C40Dj0Gc9CM17P81L5ePt1GleTp2Wu6Vh0BEk2ap2v2x3b17R66BGXp5Gubb221Bx0NkuDh3EwBb41WQh6
    Xx1j0Ivrz0BcB6KtB38Bfb0E0Im9la7GwBq88MwvwB24bDth73c6BI70FsB2Ce0c06jbh1B6D6Bm597217212l16111428212290562634HfBz89Em
    Bh2hBiBwb9Q6Cac0MgBkCI6B5Fmb50TCbu1941Cot25aBxa9161k5iWA0Cy5c387927LWcFg2fCE80wll1Osb90By0mbB10535bh6Bz010F2041Br1
    46th1B41CdBy1dBbBy9gc33DwCcB7b4Bj896B38t"),
  ("8.0 v80",
    "CJv1Ba0Ot0Js0H80BUt025DMo0Fn1CVs3BFRx8BW80Go0y5J01Qy3cC7WO61CY0i1154F812f2B9RsBedBe75BI13e4Eg610131e1aCe0C70RljI2
    p3e4fDJt0GeFfIKkQ6BMEnaBRbS3f41eGS52C61C74B07H30C34Gr1Dv0Pz8Cv4Bn0CABrGE1"),
  ("9.0 v90",
    "CJy7meZp0Fq04216n2ECv8Ka0BQn3CV01BHFd0Hq0YHb1W9z4zDQa0MhCh1010OacBNn81B81das3v2l1dWTd0vGO4jUyXGt61g261114CKtC2594
    1CGjhDy0X20B50Ic1x2P6517802b1b4eB2c"),
  ("10.0 v100",
    "CHkaL51H05O80Bm1EHu0H23Tp0X30CDm0Re4Uk0BEGvkBBDu2GG8Bz8Bf2m14Qt6111B730111889WOv0RO0HwC9KzRIs5BFh1y1Ofbj08711p0ic
    B25BkmCGF5HZk"),
  ("11.0 v110",
    "BM80B30Cu0Ol2Fv0Ia0Db0L10Dj0DGz0BD3B622ECi2mo4eQb4Ug0BEHf4CD3081J01BAP81i0TbB389MmB38B5Kb0Da2Nw0I20Tf0GdBnQx0Tm51
    11B0111579ImoVRrCiGY24UMujDi6GVkBvBFu0BP50G33Kc2s4233013oad971B0oCod"),
  ("12.0 v120",
    "DKn0Om020201540707120d0DXb0EBa0Bh0Qf0BHFe524Zr1BBMgmBFc0Qo0Un72B92aEf1BL6Bdd0FNk8QDw540Bb8Ci1GP25LI02h3NAgB83d294
    1K8Bl50BSr0BAdBoBDq0BMg0B00GdbI12Bb0Bd090B5531a53722BcCbs34252d5"),
  ("12.1 v121", "NYn0"),
  ("13.0 v130",
    "CK69S50Ly0Dg0DQ51EPq0Tc2Y84HQu9WMgcCDe3B61Bh0Wz3XOw0DNnB51221H2rKj0Dq1S2051BGu62027111t112b99BT20VYb0b1HK1NeB68
    BBJ82Cl2Bp0BKo1z1M31Ci0Ct041B6162t0Eo0e3fi7692d6B5E21BiB19BUT16YJuFH6"),
  ("14.0 v140",
    "BRh0Qiu1167l0iaY90w0Dj0CUf07090Gn0T5dDh0Bc1Rn0Tp0DDa0Bb0NvaBFBz2CD41e11014o2WXx0KlfDj0Ba1CAwa1e16111a1e1611Mj51B5
    18CCtpGe5C40BQe0Dq6Y9fFS0CqPZxC619SXq31611I03IEdB92m9D7P91DP1uYhuBKx613111eEBq2Hk0Kw0Ca0Eu1B83a382h26786BVAf1EM53"),
  ("15.0 v150",
    "DO30N60CSBq2X32CK69BC6g1B43rFS509sBIDw0y0JDmjDJl5H9Bpx0BE8B5EX60E7244Ch0Sj2f1B02b210e1a1c0e1BZMo0ZEuEMf"),
  ("15.1 v151", "ND83Nr0HIXkR9"),
  ("16.0 v160",
    "CJ30FD21Bb0Hd1CC42DTm1BGGd2c2ZRnBfBZwB13s81Ii2Bj0BG3910201B119102013191181UtjBIkxe9Y00FThEGyHYdBlDHiBlIQ50RG0Gx6
    M3GIcB640FCy941Mn050Ba070l02090G9B0")]

end Stencil.Pattern.Table
